import WordMachine.Log.Event

/-!
# Log filters

A filter decides which events are shown.  It is a list of rules, each with a scope and a least
level; the scope is the beginning of the sources that the rule speaks about.  A rule may also ask
that an event carries a named value.  Of the rules that concern an event, the one with the longest
scope decides; of rules with the same scope, one that asks for a named value goes before one that
does not, and the greater name before the smaller.  Where that leaves two rules, the later one
decides.  An event without a rule is not shown at all.

Rules are also written about spans, which are stretches of a run.  This machine logs its events in
no span, so a rule about a span concerns none of them, and neither does a rule that asks for the
value of something, since only spans are asked for values.
-/

namespace WordMachine

namespace Log

/-- What a rule asks of the named values of an event or a span. -/
structure FieldTest where
  name : String
  /-- The pattern of the value; any value will do, if there is none. -/
  value : Option (List Char) := none
deriving DecidableEq, Repr

/-- What a filter says about the sources that begin with `scope`. -/
structure Rule where
  scope : List Char := []
  /-- The name of the spans that the rule is about, if it is about spans. -/
  span : Option (List Char) := none
  /-- What an event or a span has to carry, if anything. -/
  field : Option FieldTest := none
  /-- The least level that is shown; nothing, if there is none. -/
  least : Option Level
deriving DecidableEq, Repr

/-- The rules that decide which events are shown. -/
abbrev Filter := List Rule

/-- Whether an event carries what a rule asks for. -/
def FieldTest.holds (t : FieldTest) (e : Event) : Bool :=
  t.value.isNone && e.carries t.name

namespace Rule

/-- Whether a rule speaks about an event. -/
def concerns (r : Rule) (e : Event) : Bool :=
  r.scope.isPrefixOf e.source.toList && r.span.isNone && r.field.all (·.holds e)

/-- Whether a rule shows a level. -/
def shows (r : Rule) (l : Level) : Bool :=
  match r.least with
  | none => false
  | some least => least.rank ≤ l.rank

/-- Whether a rule gives way to a later one where both speak about an event. -/
def yieldsTo (r later : Rule) : Bool :=
  if r.scope.length = later.scope.length then
    match r.field, later.field with
    | none, _ => true
    | some _, none => false
    | some t, some t' => t.name ≤ t'.name
  else
    r.scope.length < later.scope.length

end Rule

namespace Filter

/-- The better of a rule found so far and a later one. -/
def prefer (e : Event) (best : Option Rule) (r : Rule) : Option Rule :=
  if r.concerns e then
    match best with
    | none => some r
    | some b => if b.yieldsTo r then some r else some b
  else
    best

/-- The rule that decides about an event. -/
def deciding? (f : Filter) (e : Event) : Option Rule :=
  f.foldl (prefer e) none

/-- Whether an event is shown. -/
def shows (f : Filter) (e : Event) : Bool :=
  match f.deciding? e with
  | none => false
  | some r => r.shows e.level

/-- The filter when nothing else is said: everything of the simulator when instructions are traced,
and warnings and errors otherwise. -/
def standard (tracing : Bool) : Filter :=
  if tracing then [{ scope := "vsm_core".toList, least := some .trace }]
  else [{ least := some .warn }]

end Filter

/-- The log lines of the events that a filter shows. -/
def render (f : Filter) (events : List Event) : String :=
  String.join ((events.filter f.shows).map Event.line)

end Log

end WordMachine
