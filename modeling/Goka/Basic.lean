import Mathlib.Data.List.AList
import Mathlib.Tactic.Common

/-!
# What a Go call can do

A Go string is a byte sequence, so keys and values are byte lists here; topics, group names and
member IDs are only compared and concatenated and stay `String`. A nil slice differs from an empty
one, so a value that may be nil is an `Option Bytes`.
-/

namespace Goka

abbrev Bytes := List UInt8

/-- A byte string as `%s` prints it. -/
def Bytes.text (bytes : Bytes) : String :=
  String.ofList (bytes.map fun b => Char.ofNat b.toNat)

/-- `Errors.Error`. -/
def errorsText : List String → String
  | [] => ""
  | [err] => err
  | errs => errs.foldl (fun str err => str ++ "\t* " ++ err ++ "\n") "Errors:\n"

/-- `Errors.NilOrError`. -/
def nilOrError (errs : List String) : Option String :=
  if errs = [] then none else some (errorsText errs)

/-- A Go map together with the order in which one `range` over it visits the entries. -/
abbrev GoMap (K V : Type) := AList fun _ : K => V

/-- The result of a Go call: a value, an error value, or a panic that unwinds the caller. -/
inductive Outcome (α : Type) where
  | ok (value : α)
  | error (message : String)
  | panic (message : String)
  deriving Repr, DecidableEq

namespace Outcome

variable {α β : Type}

def bind (outcome : Outcome α) (next : α → Outcome β) : Outcome β :=
  match outcome with
  | ok value => next value
  | error message => error message
  | panic message => panic message

instance : Monad Outcome where
  pure := ok
  bind := bind

instance : LawfulMonad Outcome :=
  LawfulMonad.mk' _ (fun outcome => by cases outcome <;> rfl) (fun _ _ => rfl)
    fun outcome _ _ => by cases outcome <;> rfl

@[simp]
theorem ok_bind (value : α) (next : α → Outcome β) : (ok value >>= next) = next value := rfl

@[simp]
theorem error_bind (message : String) (next : α → Outcome β) :
    ((error message : Outcome α) >>= next) = error message := rfl

@[simp]
theorem panic_bind (message : String) (next : α → Outcome β) :
    ((panic message : Outcome α) >>= next) = panic message := rfl

@[simp]
theorem pure_eq_ok (value : α) : (pure value : Outcome α) = ok value := rfl

theorem bind_eq_ok {outcome : Outcome α} {next : α → Outcome β} {result : β} :
    (outcome >>= next) = ok result ↔ ∃ value, outcome = ok value ∧ next value = ok result := by
  cases outcome <;> simp

/-- The invariant rule for a loop that may stop early: the invariant ranges over the state and the
elements already seen, and holds of the whole list where the loop came through. -/
theorem foldlM_invariant {σ : Type} {step : σ → α → Outcome σ} (Inv : σ → List α → Prop)
    (P : α → Prop)
    (hstep : ∀ state seen element state', P element → Inv state seen →
      step state element = ok state' → Inv state' (seen ++ [element]))
    {elements : List α} (hall : ∀ element ∈ elements, P element) {state state' : σ}
    (hinit : Inv state []) (hrun : elements.foldlM step state = ok state') :
    Inv state' elements := by
  suffices hgeneral : ∀ seen, Inv state seen → Inv state' (seen ++ elements) from hgeneral [] hinit
  clear hinit
  induction elements generalizing state with
  | nil =>
      intro seen hseen
      obtain rfl := ok.inj hrun
      simpa using hseen
  | cons element elements ih =>
      intro seen hseen
      rw [List.foldlM_cons, bind_eq_ok] at hrun
      obtain ⟨middle, hfirst, hrest⟩ := hrun
      have hmiddle := hstep state seen element middle (hall _ (List.mem_cons_self ..)) hseen hfirst
      have hfinal := ih (fun e he => hall e (List.mem_cons_of_mem _ he)) hrest _ hmiddle
      simpa using hfinal

end Outcome

end Goka
