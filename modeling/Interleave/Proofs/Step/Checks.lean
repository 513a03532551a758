import Interleave.Proofs.Step.Perform

/-!
# Instructions that check a class

Four instructions need a class that is initialized: the one that creates an instance, those that
read and write a static field, and the call of a static method. Each of them checks the class first.
If an initializer has to run, its stub is pushed and nothing else is done, so that the instruction
runs again when the stub has been left; otherwise the instruction goes on.
-/

namespace Interleave

open Effect

/-- What an instruction makes of the check of a class. -/
inductive Work.Checked {α : Type} (p : Program) (t : ThreadId) (c : ClassId) (again : α) (w : Work)
    (v : α) (w' : Work) : Prop where
  /-- An initializer has to run first. Its stub has been pushed, and that is all. -/
  | postponed (check : Call.initializeClass? p t c w = .ok true w') (flow : v = again)
  /-- The instruction has gone on behind the check. -/
  | passed {w₁ : Work} (check : Call.initializeClass? p t c w = .ok false w₁)
    (rest : Work.Ran p t w₁ w' ∨ (v = again ∧ Work.Paused p t w₁ w'))

variable {p : Program} {t : ThreadId} {i : Instruction} {w w' : Work} {flow : Flow}

namespace Memory

theorem new_checked (h : new p t i w = .ok flow w') :
    ∃ name c, i.className = .ok name ∧ p.resolveClass name = .ok c ∧
      Work.Checked p t c.id .again w flow w' := by
  unfold new at h
  simp only [Step.lift_bind_eq_ok] at h
  obtain ⟨name, hname, c, hc, h⟩ := h
  rw [bind_eq_ok] at h
  obtain ⟨pushed, w₁, hinit, h⟩ := h
  refine ⟨name, c, hname, hc, ?_⟩
  cases pushed with
  | true =>
    simp only [if_true] at h
    obtain ⟨rfl, rfl⟩ := pure_eq_ok.mp h
    exact .postponed hinit rfl
  | false =>
    simp only [Bool.false_eq_true, if_false] at h
    exact .passed hinit (.inl (.moved (((Step.keeps_newInstance _).bind fun r =>
      (Step.keeps_onFrame (Frame.keeps_pushRef r)).bind fun _ => .pure _) h)))

/-- Reading or writing a static field, where only moves are made behind the check. -/
theorem static_checked {r : FieldRef} {rest : Option (ObjRef × Field) → Step Flow}
    (hnone : rest none = pure .again) (hsome : ∀ slot, Keeps (Work.Moved p t) (rest (some slot)))
    (h : (staticSlot p t r >>= rest) w = .ok flow w') :
    ∃ c f, staticField p r = .ok (c, f) ∧ Work.Checked p t c .again w flow w' := by
  obtain ⟨slot, w₁, hslot, h⟩ := bind_eq_ok.mp h
  obtain ⟨c, f, pushed, hfield, hinit, hpushed⟩ := staticSlot_eq_ok hslot
  refine ⟨c, f, hfield, ?_⟩
  cases slot with
  | none =>
    rw [hnone] at h
    obtain ⟨rfl, rfl⟩ := pure_eq_ok.mp h
    exact .postponed (hpushed.mpr rfl ▸ hinit) rfl
  | some slot =>
    have hpassed : pushed = false := by simpa using hpushed
    exact .passed (hpassed ▸ hinit) (.inl (.moved (hsome slot h)))

theorem getStatic_checked (h : getStatic p t i w = .ok flow w') :
    ∃ r c f, i.fieldRef = .ok r ∧ staticField p r = .ok (c, f) ∧
      Work.Checked p t c .again w flow w' := by
  unfold getStatic at h
  rw [Step.lift_bind_eq_ok] at h
  obtain ⟨r, hr, h⟩ := h
  obtain ⟨c, f, hfield, hchecked⟩ : ∃ c f, staticField p r = .ok (c, f) ∧
      Work.Checked p t c .again w flow w' := by
    refine static_checked rfl (fun slot => ?_) h
    exact (Step.keeps_object _).bind fun _ => (Step.keeps_lift _).bind fun v =>
      (Step.keeps_onFrame (keeps_pushValue _ v)).bind fun _ => .pure _
  exact ⟨r, c, f, hr, hfield, hchecked⟩

theorem putStatic_checked (h : putStatic p t i w = .ok flow w') :
    ∃ r c f, i.fieldRef = .ok r ∧ staticField p r = .ok (c, f) ∧
      Work.Checked p t c .again w flow w' := by
  unfold putStatic at h
  rw [Step.lift_bind_eq_ok] at h
  obtain ⟨r, hr, h⟩ := h
  obtain ⟨c, f, hfield, hchecked⟩ : ∃ c f, staticField p r = .ok (c, f) ∧
      Work.Checked p t c .again w flow w' := by
    refine static_checked rfl (fun slot => ?_) h
    refine (Step.keeps_onFrame (keeps_popValue _)).bind fun v =>
      (keeps_writeField _ _ v _).bind fun _ => ?_
    split
    · exact (keeps_publish v).bind fun _ => .pure _
    · exact .pure _
  exact ⟨r, c, f, hr, hfield, hchecked⟩

end Memory

namespace Step

/-- An instruction that checks a class has tried again or gone on behind the check. -/
theorem execute_checked (hi : w.kernel.At t i) (hop : i.op.checksClass = true)
    (h : execute p t i w = .ok flow w') :
    ∃ c, p.checkedClass i = .ok c ∧ Work.Checked p t c .again w flow w' := by
  have hops : i.op = .new ∨ i.op = .getStatic ∨ i.op = .putStatic ∨ i.op = .invokeStatic := by
    simpa only [Opcode.checksClass, Bool.or_eq_true, beq_iff_eq, or_assoc] using hop
  unfold execute at h
  unfold Program.checkedClass
  rcases hops with hnew | hget | hput | hcall
  · simp only [hnew] at h ⊢
    obtain ⟨name, c, hname, hc, hchecked⟩ := Memory.new_checked h
    exact ⟨c.id, by simp [hname, hc, bind, Except.bind, pure, Except.pure], hchecked⟩
  · simp only [hget] at h ⊢
    obtain ⟨r, c, f, hr, hf, hchecked⟩ := Memory.getStatic_checked h
    exact ⟨c, by simp [hr, hf, bind, Except.bind, pure, Except.pure], hchecked⟩
  · simp only [hput] at h ⊢
    obtain ⟨r, c, f, hr, hf, hchecked⟩ := Memory.putStatic_checked h
    exact ⟨c, by simp [hr, hf, bind, Except.bind, pure, Except.pure], hchecked⟩
  · simp only [hcall] at h ⊢
    obtain ⟨r, c, pushed, w₁, hr, hc, hinit, htrue, hfalse⟩ := Call.invokeStatic_eq_ok hi hcall h
    refine ⟨c.id, by simp [hr, hc, bind, Except.bind, pure, Except.pure], ?_⟩
    cases pushed with
    | true =>
      obtain ⟨rfl, rfl⟩ := htrue rfl
      exact .postponed hinit rfl
    | false => exact .passed hinit (hfalse rfl)

/-- The same when the flow has been carried out. -/
theorem perform_checked {out : Outcome} (hi : w.kernel.At t i) (hop : i.op.checksClass = true)
    (h : perform p t i w = .ok out w') :
    ∃ c, p.checkedClass i = .ok c ∧ Work.Checked p t c .running w out w' := by
  unfold perform at h
  obtain ⟨flow, w₁, hexecute, hfollow⟩ := bind_eq_ok.mp h
  obtain ⟨c, hc, hchecked⟩ := execute_checked hi hop hexecute
  refine ⟨c, hc, ?_⟩
  cases hchecked with
  | postponed check hflow =>
    subst hflow
    obtain ⟨rfl, rfl⟩ := pure_eq_ok.mp hfollow
    exact .postponed check rfl
  | passed check rest =>
    refine .passed check ?_
    rcases rest with hran | ⟨rfl, hpaused⟩
    · exact .inl (hran.trans_moved (keeps_follow flow hfollow))
    · obtain ⟨rfl, rfl⟩ := pure_eq_ok.mp hfollow
      exact .inr ⟨rfl, hpaused⟩

end Step

end Interleave
