import WebhookRelay.Data.Text
import Mathlib.Data.Rat.Cast.Order
import Mathlib.Logic.Function.Basic

/-!
# A keyspace with expiring keys

The part of Redis that a client of plain keys sees: `GET`, `SET`, `DEL`, `INCR` and `EXPIRE`, and
pipelines of them, which run as one transaction (`MULTI`/`EXEC`). A key with a deadline is there
until the clock has passed it, at the deadline itself too; `SET` drops the deadline, `INCR` keeps
it, an expired counter starts again from 0, and `EXPIRE` with a time that is not positive deletes
the key. The clock counts seconds and is a rational number, the milliseconds of Redis being some of
its values.

A `Server` is a clock with the journal of the transactions executed so far, each with its time;
the keyspace is the replay of the journal, so that questions about everything that was ever
written are questions about that list.
-/

namespace Data.Redis

/-! ### Values and commands -/

/-- A stored text: the text of an integer, the text of a float, or one that is no number. -/
inductive Value where
  | text (s : Str)
  | int (n : ℤ)
  | float (q : ℚ)
  deriving DecidableEq

/-- The text is not empty. -/
def Value.truthy : Value → Bool
  | text s => decide (s ≠ [])
  | _ => true

/-- `float(value)`. -/
def Value.float? : Value → Option ℚ
  | text _ => none
  | int n => some n
  | float q => some q

/-- A key that is there, with the time it expires at. -/
structure Entry where
  value : Value
  deadline : Option ℚ
  deriving DecidableEq

/-- The keys, expired ones included. -/
abbrev Keyspace : Type := Str → Option Entry

/-- The commands that change a key. -/
inductive Command where
  | set (key : Str) (v : Value)
  | del (key : Str)
  | incr (key : Str)
  | expire (key : Str) (seconds : ℤ)
  deriving DecidableEq

/-- The key a command names. -/
def Command.key : Command → Str
  | set key _ => key
  | del key => key
  | incr key => key
  | expire key _ => key

/-- What a command answers with. -/
inductive Reply where
  | ok
  | int (n : ℤ)
  | error
  deriving DecidableEq

namespace Keyspace

/-- The keyspace without keys. -/
def empty : Keyspace := fun _ => none

/-- The key, unless it has expired. -/
def live (K : Keyspace) (now : ℚ) (key : Str) : Option Entry :=
  (K key).filter fun e => e.deadline.all fun d => decide (now ≤ d)

/-- A key without a deadline does not expire. -/
theorem live_of_permanent {K : Keyspace} {key : Str} {v : Option Value}
    (h : K key = v.map fun x => ⟨x, none⟩) (now : ℚ) : K.live now key = K key := by
  unfold live
  rw [h]
  cases v <;> simp

/-- One command. -/
def exec (now : ℚ) (K : Keyspace) : Command → Reply × Keyspace
  | .set key v => (.ok, Function.update K key (some ⟨v, none⟩))
  | .del key => (.int (if (K.live now key).isSome then 1 else 0), Function.update K key none)
  | .incr key =>
    match K.live now key with
    | none => (.int 1, Function.update K key (some ⟨.int 1, none⟩))
    | some ⟨.int n, d⟩ => (.int (n + 1), Function.update K key (some ⟨.int (n + 1), d⟩))
    | some _ => (.error, K)
  | .expire key seconds =>
    match K.live now key with
    | none => (.int 0, K)
    | some e =>
      (.int 1, Function.update K key
        (if 0 < seconds then some ⟨e.value, some (now + seconds)⟩ else none))

/-- A transaction: its commands in order, at one instant. -/
def execAll (now : ℚ) : Keyspace → List Command → List Reply × Keyspace
  | K, [] => ([], K)
  | K, cmd :: cmds =>
    let x := exec now K cmd
    let y := execAll now x.2 cmds
    (x.1 :: y.1, y.2)

end Keyspace

/-! ### The server -/

/-- The transactions executed so far, oldest first, each with its time. -/
abbrev Journal : Type := List (ℚ × List Command)

/-- The keyspace after the transactions of a journal. -/
def Journal.replay (J : Journal) : Keyspace :=
  J.foldl (fun K x => (K.execAll x.1 x.2).2) Keyspace.empty

@[simp] theorem Journal.replay_append_singleton (J : Journal) (x : ℚ × List Command) :
    Journal.replay (J ++ [x]) = ((Journal.replay J).execAll x.1 x.2).2 := by
  simp only [Journal.replay, List.foldl_append, List.foldl_cons, List.foldl_nil]

/-- A server: its journal and its clock. -/
structure Server where
  journal : Journal
  now : ℚ

namespace Server

/-- The keys of the server. -/
def keyspace (s : Server) : Keyspace := s.journal.replay

/-- `GET`. -/
def get (s : Server) (key : Str) : Option Value := (s.keyspace.live s.now key).map Entry.value

/-- Execute a transaction. -/
def execute (s : Server) (cmds : List Command) : List Reply × Server :=
  ((s.keyspace.execAll s.now cmds).1, { s with journal := s.journal ++ [(s.now, cmds)] })

@[simp] theorem journal_execute (s : Server) (cmds : List Command) :
    (s.execute cmds).2.journal = s.journal ++ [(s.now, cmds)] := rfl

theorem keyspace_execute (s : Server) (cmds : List Command) :
    (s.execute cmds).2.keyspace = (s.keyspace.execAll s.now cmds).2 :=
  Journal.replay_append_singleton _ _

/-- Nothing but time has passed. -/
def Later (s s' : Server) : Prop := s'.journal = s.journal ∧ s.now ≤ s'.now

theorem Later.refl (s : Server) : s.Later s := ⟨rfl, le_refl _⟩

theorem Later.trans {s₁ s₂ s₃ : Server} (h : s₁.Later s₂) (h' : s₂.Later s₃) : s₁.Later s₃ :=
  ⟨h'.1.trans h.1, h.2.trans h'.2⟩

theorem Later.keyspace {s s' : Server} (h : s.Later s') : s'.keyspace = s.keyspace := by
  unfold Server.keyspace
  rw [h.1]

end Server

end Data.Redis
