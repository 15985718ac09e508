import WordMachine.Proofs.ProgramText

/-!
# A scanner that goes byte by byte

The cut of a byte string into tokens is described in two passes: first the runs, then the pieces of
each run.  A program that reads from a terminal has no runs; it looks at one byte after another, skips
the blanks, and takes what follows as a field until the field is full, a blank comes or the input ends.
`Scanner.fields` is this program.

Both come to the same tokens, `Tokens.split_eq_fields`.  A field that is cut off because it is full
leaves the rest of its run in front, and that is the run with which the next field begins, so the pieces
of a run are its fields (`Tokens.split_eq_cons`).  From this side it is easy to see what a field is
(`Scanner.isField_of_mem_fields`) and that nothing but blanks is lost (`Scanner.flatten_fields`); from
the other, how the fields of a run are cut.
-/

namespace WordMachine

/-- The first piece of a list that is not empty, and the others. -/
theorem pieces_of_ne_nil {α : Type} {width : Nat} (hwidth : 0 < width) {xs : List α} (hxs : xs ≠ []) :
    pieces width xs = xs.take width :: pieces width (xs.drop width) := by
  rcases Nat.lt_or_ge xs.length width with hlt | hge
  · have hrest : xs.drop width = [] := List.drop_of_length_le (Nat.le_of_lt hlt)
    have hall : xs.take width = xs := List.take_of_length_le (Nat.le_of_lt hlt)
    rw [hrest, hall, pieces_nil, pieces, hrest]
    simp [hxs]
  · have hcut := pieces_append hwidth (List.length_take_of_le hge) (xs.drop width)
    rwa [List.take_append_drop] at hcut

/-- All pieces but the last have the full width. -/
theorem length_of_mem_dropLast_pieces {α : Type} {width : Nat} {xs p : List α}
    (hp : p ∈ (pieces width xs).dropLast) : p.length = width := by
  fun_induction pieces width xs with
  | case1 xs hshort hempty => cases hp
  | case2 xs hshort hne => cases hp
  | case3 xs hlong ih =>
    simp only [List.isEmpty_iff, List.drop_eq_nil_iff, not_or, Nat.not_le] at hlong
    generalize pieces width (xs.drop width) = ps at ih hp
    cases ps with
    | nil => cases hp
    | cons q ps =>
      rcases List.mem_cons.mp hp with rfl | hp'
      · exact List.length_take_of_le (Nat.le_of_lt hlong.2)
      · exact ih hp'

namespace Tokens

namespace Scanner

/-! ### The scanner -/

/-- Skips blanks, one after another. -/
def skip : List UInt8 → List UInt8
  | [] => []
  | b :: bs => if b ∈ blanks then skip bs else b :: bs

/-- Takes bytes that are not blank, one after another, as long as there is room for them.  Returns the
field and what is left of the input. -/
def field : Nat → List UInt8 → List UInt8 × List UInt8
  | 0, bs => ([], bs)
  | _ + 1, [] => ([], [])
  | room + 1, b :: bs =>
    if b ∈ blanks then
      ([], b :: bs)
    else
      (b :: (field room bs).1, (field room bs).2)

theorem length_skip_le (bs : List UInt8) : (skip bs).length ≤ bs.length := by
  fun_induction skip bs with
  | case1 => exact Nat.le_refl 0
  | case2 b bs hb ih => exact Nat.le_succ_of_le ih
  | case3 b bs hb => exact Nat.le_refl _

theorem length_field_le (room : Nat) (bs : List UInt8) : (field room bs).2.length ≤ bs.length := by
  fun_induction field room bs with
  | case1 bs => exact Nat.le_refl _
  | case2 room => exact Nat.le_refl 0
  | case3 room b bs hb => exact Nat.le_refl _
  | case4 room b bs hb ih => exact Nat.le_succ_of_le ih

/-- What is left after skipping begins with a byte that is not blank. -/
theorem not_mem_blanks_of_skip_eq_cons {bs cs : List UInt8} {b : UInt8} (h : skip bs = b :: cs) :
    b ∉ blanks := by
  fun_induction skip bs with
  | case1 => cases h
  | case2 a bs ha ih => exact ih h
  | case3 a bs ha =>
    cases h
    exact ha

/-- So there is a byte for the next field. -/
theorem field_cons_of_not_mem {b : UInt8} (hb : b ∉ blanks) (room : Nat) (bs : List UInt8) :
    field (room + 1) (b :: bs) = (b :: (field room bs).1, (field room bs).2) := by
  rw [field, if_neg hb]

/-- The fields of a byte string, in order: blanks are skipped, and then a field of at most sixteen
bytes is taken, until nothing is left. -/
def fields (bs : List UInt8) : List (List UInt8) :=
  match _h : skip bs with
  | [] => []
  | b :: cs => (field 16 (b :: cs)).1 :: fields (field 16 (b :: cs)).2
termination_by bs.length
decreasing_by
  have hb : b ∉ blanks := not_mem_blanks_of_skip_eq_cons _h
  have hskip : (b :: cs).length ≤ bs.length := _h ▸ length_skip_le bs
  have hfield : (field 15 cs).2.length ≤ cs.length := length_field_le 15 cs
  rw [field_cons_of_not_mem hb]
  exact Nat.lt_of_lt_of_le (Nat.lt_succ_of_le hfield) hskip

/-! ### Fields -/

/-- `IsField f`: the bytes `f` are a field, that is one to sixteen bytes without a blank. -/
structure IsField (f : List UInt8) : Prop where
  nonempty : f ≠ []
  length_le : f.length ≤ 16
  filled : ∀ b ∈ f, b ∉ blanks

theorem length_field_fst_le (room : Nat) (bs : List UInt8) : (field room bs).1.length ≤ room := by
  fun_induction field room bs with
  | case1 bs => exact Nat.le_refl 0
  | case2 room => exact Nat.zero_le _
  | case3 room b bs hb => exact Nat.zero_le _
  | case4 room b bs hb ih => exact Nat.succ_le_succ ih

/-- A field takes no blank. -/
theorem not_mem_blanks_of_mem_field {room : Nat} {bs : List UInt8} {b : UInt8}
    (hb : b ∈ (field room bs).1) : b ∉ blanks := by
  fun_induction field room bs with
  | case1 bs => cases hb
  | case2 room => cases hb
  | case3 room a bs ha => cases hb
  | case4 room a bs ha ih =>
    rcases List.mem_cons.mp hb with rfl | hb'
    · exact ha
    · exact ih hb'

/-- Nothing is lost when a field is taken. -/
theorem field_append (room : Nat) (bs : List UInt8) :
    (field room bs).1 ++ (field room bs).2 = bs := by
  fun_induction field room bs with
  | case1 bs => rfl
  | case2 room => rfl
  | case3 room b bs hb => rfl
  | case4 room b bs hb ih => exact congrArg (b :: ·) ih

/-- The scanner takes fields only. -/
theorem isField_of_mem_fields {bs f : List UInt8} (hf : f ∈ fields bs) : IsField f := by
  fun_induction fields bs with
  | case1 bs h => cases hf
  | case2 bs b cs h ih =>
    rcases List.mem_cons.mp hf with rfl | hf'
    · refine ⟨?_, length_field_fst_le 16 _, fun x => not_mem_blanks_of_mem_field⟩
      rw [field_cons_of_not_mem (not_mem_blanks_of_skip_eq_cons h)]
      exact List.cons_ne_nil _ _
    · exact ih hf'

/-- Only blanks are skipped. -/
theorem filter_skip (bs : List UInt8) :
    (skip bs).filter (fun b => b ∉ blanks) = bs.filter fun b => b ∉ blanks := by
  fun_induction skip bs with
  | case1 => rfl
  | case2 b bs hb ih =>
    rw [ih, List.filter_cons_of_neg]
    simpa using hb
  | case3 b bs hb => rfl

/-- The fields hold the bytes that are not blank, in order. -/
theorem flatten_fields (bs : List UInt8) :
    (fields bs).flatten = bs.filter fun b => b ∉ blanks := by
  fun_induction fields bs with
  | case1 bs h => rw [List.flatten_nil, ← filter_skip, h, List.filter_nil]
  | case2 bs b cs h ih =>
    have hfield : (field 16 (b :: cs)).1.filter (fun b => b ∉ blanks) = (field 16 (b :: cs)).1 := by
      rw [List.filter_eq_self]
      intro x hx
      exact decide_eq_true (not_mem_blanks_of_mem_field hx)
    rw [List.flatten_cons, ih, ← filter_skip bs, h, ← field_append 16 (b :: cs), List.filter_append,
      field_append, hfield]

end Scanner

/-! ### Fields are tokens -/

/-- The separators are the blanks. -/
theorem isSeparator_iff_mem_blanks (b : UInt8) : isSeparator b = true ↔ b ∈ blanks := by
  simp only [isSeparator, blanks, Bool.or_eq_true, Bool.and_eq_true, decide_eq_true_eq, List.mem_cons,
    List.not_mem_nil, UInt8.le_iff_toNat_le, ← UInt8.toNat_inj, UInt8.reduceToNat, or_false]
  omega

theorem isSeparator_eq_false_of_not_mem {b : UInt8} (hb : b ∉ blanks) : isSeparator b = false :=
  Bool.eq_false_iff.mpr fun h => hb ((isSeparator_iff_mem_blanks b).mp h)

open Scanner

/-- What a field is and what it leaves, told by the first run. -/
theorem field_eq (room : Nat) (bs : List UInt8) :
    field room bs = ((run bs).take room, (run bs).drop room ++ afterRun bs) := by
  fun_induction field room bs with
  | case1 bs => rw [List.take_zero, List.drop_zero, run_append_afterRun]
  | case2 room => rfl
  | case3 room b bs hb =>
    have hsep : isSeparator b = true := (isSeparator_iff_mem_blanks b).mpr hb
    simp [run, afterRun, hsep]
  | case4 room b bs hb ih =>
    have hsep : isSeparator b = false := isSeparator_eq_false_of_not_mem hb
    have hrun : run (b :: bs) = b :: run bs := by simp [run, hsep]
    have hafter : afterRun (b :: bs) = afterRun bs := by simp [afterRun, hsep]
    rw [ih, hrun, hafter, List.take_succ_cons, List.drop_succ_cons]

/-- What comes after a run begins with a separator. -/
theorem isSeparator_of_head?_afterRun {bs : List UInt8} {x : UInt8}
    (hx : (afterRun bs).head? = some x) : isSeparator x = true := by
  have hstop := List.head?_dropWhile_not (fun b => !isSeparator b) bs
  rw [afterRun] at hx
  rw [hx] at hstop
  simpa using hstop

/-- The tokens of a run are its pieces, and the bytes from a separator on have the other tokens. -/
theorem split_append_of_stops {bs rest : List UInt8} (hbs : ∀ x ∈ bs, isSeparator x = false)
    (hrest : ∀ x, rest.head? = some x → isSeparator x = true) :
    split (bs ++ rest) = (pieces width bs).map spell ++ split rest := by
  have hparts : run rest = [] ∧ afterRun rest = rest := by
    cases rest with
    | nil => exact ⟨rfl, rfl⟩
    | cons x rest =>
      have hx : isSeparator x = true := hrest x rfl
      simp [run, afterRun, hx]
  rw [split_eq_run_append, run_append hbs, afterRun_append hbs, hparts.1, hparts.2, List.append_nil]

/-- The first token is the first field, if there is a byte for it, and the tokens of what the field
leaves are the others. -/
theorem split_eq_cons {b : UInt8} (hb : b ∉ blanks) (bs : List UInt8) :
    split (b :: bs) = spell (field 16 (b :: bs)).1 :: split (field 16 (b :: bs)).2 := by
  have hsep : isSeparator b = false := isSeparator_eq_false_of_not_mem hb
  have hrun : run (b :: bs) ≠ [] := by simp [run, hsep]
  have hfilled : ∀ x ∈ (run (b :: bs)).drop 16, isSeparator x = false := by
    intro x hx
    have hmem : x ∈ run (b :: bs) := List.mem_of_mem_drop hx
    simpa using List.all_eq_true.mp List.all_takeWhile x hmem
  rw [field_eq, split_append_of_stops hfilled fun x => isSeparator_of_head?_afterRun,
    split_eq_run_append, pieces_of_ne_nil (by decide) hrun]
  rfl

/-- A separator in front makes no token. -/
theorem split_cons_of_isSeparator {b : UInt8} (hb : isSeparator b = true) (bs : List UInt8) :
    split (b :: bs) = split bs := by
  rw [split, split, runs_cons_of_isSeparator hb]

/-- Skipped blanks make no token. -/
theorem split_skip (bs : List UInt8) : split (skip bs) = split bs := by
  fun_induction skip bs with
  | case1 => rfl
  | case2 b bs hb ih =>
    rw [ih, split_cons_of_isSeparator ((isSeparator_iff_mem_blanks b).mpr hb)]
  | case3 b bs hb => rfl

/-- The tokens of a byte string are its fields. -/
theorem split_eq_fields (bs : List UInt8) : split bs = (Scanner.fields bs).map spell := by
  fun_induction Scanner.fields bs with
  | case1 bs h => rw [← split_skip, h, split_nil, List.map_nil]
  | case2 bs b cs h ih =>
    rw [← split_skip, h, split_eq_cons (not_mem_blanks_of_skip_eq_cons h), ih, List.map_cons]

/-! ### Characters of tokens -/

/-- A byte of the ASCII range is the character of its number. -/
theorem toNat_character (b : UInt8) : (character b).toNat = if b < 0x80 then b.toNat else 0xFFFD := by
  rw [character]
  split
  · next hb =>
    have hlt : b.toNat < 128 := hb
    have hvalid : b.toNat.isValidChar := .inl (Nat.lt_trans hlt (by decide))
    rw [Char.ofNat, dif_pos hvalid]
    rfl
  · rfl

/-- A byte that is not blank does not spell a blank. -/
theorem toNat_character_ne {b x : UInt8} (hb : b ∉ blanks) (hx : x ∈ blanks) :
    (character b).toNat ≠ x.toNat := by
  have hne : b.toNat ≠ x.toNat := fun h => hb (UInt8.toNat_inj.mp h ▸ hx)
  have hlt : x.toNat < 128 := by
    have hall : ∀ y ∈ blanks, y.toNat < 128 := by simp [blanks]
    exact hall x hx
  rw [toNat_character]
  split
  · exact hne
  · omega

/-- A token holds one character for each byte of its field. -/
theorem toList_spell (bs : List UInt8) : (spell bs).toList = bs.map character :=
  String.toList_ofList

/-! ### Tokens of a byte string -/

/-- `MaximalRun front bs back`: in the byte string `front ++ bs ++ back` the bytes `bs` are a block
without a blank that cannot be extended. -/
structure MaximalRun (front bs back : List UInt8) : Prop where
  nonempty : bs ≠ []
  filled : ∀ b ∈ bs, b ∉ blanks
  begins : ∀ x, front.getLast? = some x → x ∈ blanks
  ends : ∀ x, back.head? = some x → x ∈ blanks

/-- A token is a field, so it has one to sixteen characters and none of them is a blank. -/
theorem token_of_mem_split {bs : List UInt8} {t : String} (ht : t ∈ split bs) :
    t ≠ "" ∧ t.length ≤ 16 ∧ ∀ c ∈ t.toList, ∀ x ∈ blanks, c.toNat ≠ x.toNat := by
  rw [split_eq_fields] at ht
  obtain ⟨f, hf, rfl⟩ := List.mem_map.mp ht
  have hfield := isField_of_mem_fields hf
  refine ⟨fun hempty => ?_, ?_, fun c hc x hx => ?_⟩
  · have hnil : f.map character = [] := by
      rw [← toList_spell, hempty]
      rfl
    exact hfield.nonempty (List.map_eq_nil_iff.mp hnil)
  · rw [← String.length_toList, toList_spell, List.length_map]
    exact hfield.length_le
  · rw [toList_spell] at hc
    obtain ⟨b, hb, rfl⟩ := List.mem_map.mp hc
    exact toNat_character_ne (hfield.filled b hb) hx

/-- The tokens hold the characters of the bytes that are not blank, in order. -/
theorem flatMap_toList_split (bs : List UInt8) :
    (split bs).flatMap String.toList = (bs.filter fun b => b ∉ blanks).map character := by
  have hspell : String.toList ∘ spell = List.map character := funext toList_spell
  rw [split_eq_fields, List.flatMap_def, List.map_map, hspell, ← List.map_flatten, flatten_fields]

/-- The cut goes through in front of a separator. -/
theorem split_append_of_head? {bs cs : List UInt8} (h : ∀ x, cs.head? = some x → x ∈ blanks) :
    split (bs ++ cs) = split bs ++ split cs := by
  cases cs with
  | nil => rw [List.append_nil, split_nil, List.append_nil]
  | cons x cs =>
    have hx : isSeparator x = true := (isSeparator_iff_mem_blanks x).mpr (h x rfl)
    rw [split_append_cons hx, split_cons_of_isSeparator hx]

/-- It also goes through behind one. -/
theorem split_append_of_getLast? {bs cs : List UInt8} (h : ∀ x, bs.getLast? = some x → x ∈ blanks) :
    split (bs ++ cs) = split bs ++ split cs := by
  rcases List.eq_nil_or_concat bs with rfl | ⟨front, x, rfl⟩
  · rw [List.nil_append, split_nil, List.nil_append]
  · rw [List.concat_eq_append] at h ⊢
    have hx : isSeparator x = true := (isSeparator_iff_mem_blanks x).mpr (h x List.getLast?_concat)
    rw [split_concat hx, List.append_assoc, List.singleton_append, split_append_cons hx]

namespace MaximalRun

variable {front bs back : List UInt8}

/-- The tokens before a maximal run, those of the run, and those after it. -/
theorem split_eq (h : MaximalRun front bs back) :
    split (front ++ bs ++ back) = split front ++ split bs ++ split back := by
  rw [split_append_of_head? h.ends, split_append_of_getLast? h.begins]

/-- All tokens of a maximal run but the last have the full width. -/
theorem length_of_mem_dropLast (h : MaximalRun front bs back) {t : String}
    (ht : t ∈ (split bs).dropLast) : t.length = 16 := by
  have hfilled : ∀ x ∈ bs, isSeparator x = false := fun x hx =>
    isSeparator_eq_false_of_not_mem (h.filled x hx)
  have hpieces : split bs = (pieces width bs).map spell := by
    have hparts : split (bs ++ []) = (pieces width bs).map spell ++ split [] :=
      split_append_of_stops hfilled nofun
    rwa [List.append_nil, split_nil, List.append_nil] at hparts
  rw [hpieces, ← List.map_dropLast] at ht
  obtain ⟨p, hp, rfl⟩ := List.mem_map.mp ht
  rw [← String.length_toList, toList_spell, List.length_map]
  exact length_of_mem_dropLast_pieces hp

end MaximalRun

/-- The cut into tokens is what a scanner does that goes byte by byte, skips blanks, and takes the
longest field of at most sixteen bytes that is there.  So a token is never empty, has at most sixteen
characters and no blank among them, and the tokens together hold every byte that is not blank, in order
and as one character: itself, or the replacement character if it is not ASCII.  In a maximal run all
tokens but the last are full; and a separator parts a byte string into two that are cut on their own. -/
theorem split_eq_scan :
    (∀ bs : List UInt8,
      split bs = (Scanner.fields bs).map spell ∧
      (∀ t ∈ split bs, t ≠ "" ∧ t.length ≤ 16 ∧ ∀ c ∈ t.toList, ∀ x ∈ blanks, c.toNat ≠ x.toNat) ∧
      (split bs).flatMap String.toList = (bs.filter fun b => b ∉ blanks).map fun b =>
        if b.toNat < 128 then Char.ofNat b.toNat else Char.ofNat 0xFFFD) ∧
    (∀ front bs back : List UInt8, MaximalRun front bs back →
      split (front ++ bs ++ back) = split front ++ split bs ++ split back ∧
      ∀ t ∈ (split bs).dropLast, t.length = 16) ∧
    ∀ (front back : List UInt8) (x : UInt8), x ∈ blanks →
      split (front ++ [x] ++ back) = split front ++ split back := by
  refine ⟨fun bs => ⟨split_eq_fields bs, fun t => token_of_mem_split, flatMap_toList_split bs⟩,
    fun front bs back h => ⟨h.split_eq, fun t => h.length_of_mem_dropLast⟩, fun front back x hx => ?_⟩
  rw [List.append_assoc]
  exact split_append_cons ((isSeparator_iff_mem_blanks x).mpr hx) front back

/-- A run of seventeen bytes, the first of them not ASCII, between other runs: it makes two tokens, and
only the second is not full.  A vertical tab parts it from what follows. -/
theorem split_eq_scan_of_seventeen_bytes :
    let front : List UInt8 := [0x31, 0x20]
    let bs : List UInt8 := 0xE9 :: List.replicate 16 0x31
    let back : List UInt8 := [0x0B, 0x09, 0x30]
    MaximalRun front bs back ∧
      split bs = ["\uFFFD111111111111111", "1"] ∧
      (split (front ++ bs ++ back) = split front ++ split bs ++ split back ∧
        ∀ t ∈ (split bs).dropLast, t.length = 16) ∧
      0x0B ∈ blanks ∧ split (bs ++ [0x0B] ++ [0x30]) = split bs ++ split [0x30] := by
  intro front bs back
  have hrun : MaximalRun front bs back := {
    nonempty := List.cons_ne_nil _ _
    filled := by simp [bs, blanks]
    begins := by
      rintro x ⟨⟩
      decide
    ends := by
      rintro x ⟨⟩
      decide }
  have hfields : (Scanner.fields bs).map spell = ["\uFFFD111111111111111", "1"] := by
    decide +kernel
  have htokens : split bs = ["\uFFFD111111111111111", "1"] := (split_eq_scan.1 bs).1.trans hfields
  have htab : 0x0B ∈ blanks := by decide
  exact ⟨hrun, htokens, split_eq_scan.2.1 front bs back hrun, htab,
    split_eq_scan.2.2 bs [0x30] 0x0B htab⟩

end Tokens

end WordMachine
