import WordMachine.Host.Console
import WordMachine.Host.Sink

/-!
# Consoles over given tokens

A token queue hands out given tokens as they are, however long they may be.  It writes values like
any console, and its flush has nothing to do.
-/

namespace WordMachine

/-- A console that hands out the tokens of a list. -/
structure TokenQueue where
  tokens : List String
  sink : Sink
deriving DecidableEq, Repr

namespace TokenQueue

/-- The next token. -/
def readToken (q : TokenQueue) : Except Failure (Option String) × TokenQueue :=
  match q.tokens with
  | [] => (.ok none, q)
  | token :: rest => (.ok (some token), { q with tokens := rest })

/-- Writes a value as a decimal line. -/
def writeValue (q : TokenQueue) (w : Word) : Except Failure Unit × TokenQueue :=
  let (result, sink) := q.sink.write (Console.valueLine w)
  (result, { q with sink })

instance : FiniteConsole TokenQueue where
  readToken := readToken
  writeValue := writeValue
  flush q := (.ok (), q)
  remaining q := q.tokens.length
  remaining_readToken q q' token h := by
    unfold readToken at h
    split at h
    · cases h
    · rename_i hq
      cases h
      simp [hq]

end TokenQueue

end WordMachine
