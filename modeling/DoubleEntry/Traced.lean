import DoubleEntry.Fault

/-! # Results with the events on the way

Reading a set of books announces what it does. A `Traced` value is the result of
some work together with the events announced until it was done or failed.
-/

namespace DoubleEntry

/-- What is announced while books are read and checked. -/
inductive Event where
  | parsing (path : String)
  /-- A file has opened the chart with this many accounts. -/
  | opened (accounts : Nat) (file : String)
  /-- A journal has been read and holds this many entries. -/
  | contributed (path : String) (entries : Nat)
  | posted (entries accounts : Nat)
  deriving Repr, DecidableEq

namespace Event

/-- How much an event matters to whoever follows the work. -/
def level : Event → String
  | parsing .. | posted .. => "INFO"
  | opened .. | contributed .. => "DEBUG"

def text : Event → String
  | parsing path => "Parsing " ++ path
  | opened accounts file => "Opened " ++ toString accounts ++ " accounts in " ++ file
  | contributed path entries =>
    "Journal " ++ path ++ " contributed " ++ toString entries ++ " entries"
  | posted entries accounts =>
    "Posted " ++ toString entries ++ " journal entries into " ++ toString accounts ++ " accounts"

end Event

/-- A result, or the fault that ended the work, with the events before it. -/
structure Traced (α : Type) where
  events : List Event
  result : Except Fault α

namespace Traced

def ofExcept {α : Type} (result : Except Fault α) : Traced α := ⟨[], result⟩

def announce (event : Event) : Traced Unit := ⟨[event], .ok ()⟩

/-- Go on with a result, unless there is a fault. -/
def andThen {α β : Type} (x : Traced α) (f : α → Traced β) : Traced β :=
  match x.result with
  | .error fault => ⟨x.events, .error fault⟩
  | .ok a =>
    let y := f a
    ⟨x.events ++ y.events, y.result⟩

instance : Monad Traced where
  pure a := ofExcept (.ok a)
  bind := andThen

@[simp] theorem result_pure {α : Type} (a : α) : (pure a : Traced α).result = .ok a := rfl

@[simp] theorem result_ofExcept {α : Type} (r : Except Fault α) : (ofExcept r).result = r := rfl

@[simp] theorem result_announce (event : Event) : (announce event).result = .ok () := rfl

/-- The events have no bearing on the result. -/
@[simp] theorem result_bind {α β : Type} (x : Traced α) (f : α → Traced β) :
    (x >>= f).result = x.result.bind fun a => (f a).result := by
  change (andThen x f).result = _
  unfold andThen
  cases x.result <;> rfl

@[simp] theorem result_foldlM {α β : Type} (f : β → α → Traced β) (init : β) (l : List α) :
    (l.foldlM f init).result = l.foldlM (fun b a => (f b a).result) init := by
  induction l generalizing init with
  | nil => rfl
  | cons a l ih =>
    simp only [List.foldlM_cons, result_bind, ih]
    rfl

end Traced

end DoubleEntry
