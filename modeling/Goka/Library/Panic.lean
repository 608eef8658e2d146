import Mathlib

/-!
# Programs that keep their state when they panic

A program over a state that may end in a panic is a state transformer with exceptions on top: what
it has written before the panic stays written. Triples for such programs have a postcondition for
each of the two endings.
-/

namespace Panic

open Std.Do

variable {ε σ α : Type} {program : ExceptT ε (StateM σ) α} {P : σ → Prop} {Q : α → σ → Prop}
  {R : ε → σ → Prop} {s s' : σ}

theorem post_of_triple (h : ⦃fun s => ⌜P s⌝⦄ program ⦃post⟨fun a s => ⌜Q a s⌝, fun e s => ⌜R e s⌝⟩⦄)
    (hpre : P s) {a : α} (hrun : program.run s = (.ok a, s')) : Q a s' := by
  have hpost := h s hpre
  have hrun' : StateT.run program.run s = (.ok a, s') := hrun
  simp only [wp] at hpost
  simp [hrun'] at hpost
  exact hpost

theorem post_of_triple_panic
    (h : ⦃fun s => ⌜P s⌝⦄ program ⦃post⟨fun a s => ⌜Q a s⌝, fun e s => ⌜R e s⌝⟩⦄)
    (hpre : P s) {e : ε} (hrun : program.run s = (.error e, s')) : R e s' := by
  have hpost := h s hpre
  have hrun' : StateT.run program.run s = (.error e, s') := hrun
  simp only [wp] at hpost
  simp [hrun'] at hpost
  exact hpost

end Panic
