import Interleave.Proofs.Machine.Delivery
import Interleave.Proofs.Machine.Recognized

/-!
# Machines led by choices

A search takes only choices of the pending generator. Then a data choice is taken only where a
thread has asked for a value, and the thread consumes it right away: between transitions no choice
waits to be consumed. So what comes of a choice depends on the state of the program and the current
thread alone.
-/

namespace Interleave

open Relation

namespace Machine

/-- A machine between transitions, led there by choices. The method `stub` is the one by which its
main thread was begun. -/
structure Led (p : Program) (config : Config) (stub : Method) (m : Machine) : Prop
    extends Served p m where
  config : m.config = config
  /-- Its state can be told from others. -/
  identified : m.kernel.Identified p stub

variable {p : Program} {config : Config} {stub : Method} {m m' : Machine}

/-- A choice leads on. -/
theorem Led.follows (hm : Led p config stub m) (h : m.Follows m') : Led p config stub m' := by
  obtain ⟨hg, -, htransition⟩ := h
  obtain ⟨⟨-, hconfig, -⟩, -⟩ := transition_turns hm.hostCall htransition
  have hturn : ∀ k k', k.Identified p stub → Kernel.Turn m.program k k' → k'.Identified p stub :=
    fun _ _ hk h => hk.turn (hm.program ▸ h)
  exact {
    toServed := hm.toServed.transition hg htransition
    config := hconfig.trans hm.config
    identified := kernel_of_transition hm.hostCall htransition hturn hm.identified }

theorem Led.reaches (hm : Led p config stub m) (h : m.Reaches m') : Led p config stub m' := by
  induction h with
  | refl => exact hm
  | tail _ hlast ih => exact ih.follows hlast

/-- A machine that was just started is led by choices from then on. -/
theorem Led.exists_of_start {listening : Bool} {name : String} {u : Unit}
    (h : start name (Machine.new p config listening) = .ok u m) : ∃ stub, Led p config stub m := by
  obtain ⟨⟨-, hconfig⟩, hstarted, -⟩ := start_eq_ok h
  obtain ⟨stub, hidentified⟩ := Kernel.Identified.exists_of_started hstarted
  exact ⟨stub, Served.start h, hconfig, hidentified⟩

end Machine

end Interleave
