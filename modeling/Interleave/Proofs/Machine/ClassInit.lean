import Interleave.Proofs.Initialization
import Interleave.Proofs.Machine.History
import Interleave.Proofs.Step.Checks

/-!
# The initialization of classes along a run

What moves do to classes adds up along a run: the statuses of classes only go forward, an
initializer is entered by one instruction of the whole run at most, and whoever is in one holds the
monitor of the class object and may use the superclasses.

An instruction that needs an initialized class goes on only behind the check of it. By then its
thread may use the class and all superclasses, and that remains so.
-/

namespace Interleave.Machine

open Relation

namespace Performed

/-- By an instruction its thread has entered an initializer of a class. -/
def Enters (x : Performed) (c : ClassId) : Prop :=
  x.before.initializers x.thread c < x.after.initializers x.thread c

instance (x : Performed) (c : ClassId) : Decidable (x.Enters c) :=
  inferInstanceAs (Decidable (_ < _))

/-- What an instruction has made of the check of a class. -/
inductive Checks (x : Performed) (c : ClassId) : Prop where
  /-- An initializer has to run first. Its stub has been pushed, and that is all: the thread stands
  in front of the same instruction below the stub. -/
  | postponed (running : x.outcome = .running)
    (check : Call.initializeClass? x.machine.program x.thread c x.machine.work = .ok true x.work)
  /-- The instruction has gone on behind the check. Then and from then on its thread may use the
  class and all superclasses. -/
  | passed {w : Work}
    (check : Call.initializeClass? x.machine.program x.thread c x.machine.work = .ok false w)
    (usable : ∀ d ∈ x.machine.program.chain c, w.kernel.Usable x.thread d)
    (after : ∀ d ∈ x.machine.program.chain c, x.after.Usable x.thread d)

end Performed

variable {p : Program} {config : Config} {m : Machine} {k k' : Kernel} {x : Performed}
  {xs : List Performed} {c : ClassId}

/-! ## One instruction -/

/-- An instruction goes on with the initialization of classes. -/
theorem Performed.LeadsTo.proceeds (hp : p.InitializesOnUse) (h : x.LeadsTo m)
    (hprogram : x.machine.program = p) (hruns : x.before.Runs x.thread)
    (hguarded : x.before.Guarded p) : Kernel.Proceeds p x.before x.after := by
  have hturn := h.turn hruns
  rw [h.kernel, hprogram] at hturn
  exact .of_turn hp hguarded hturn

/-- An instruction that checks a class goes on only if its thread may use the class. -/
theorem Performed.LeadsTo.checks (hp : p.InitializesOnUse) (h : x.LeadsTo m)
    (hprogram : x.machine.program = p) (hruns : x.before.Runs x.thread)
    (hguarded : x.before.Guarded p) (hop : x.instruction.op.checksClass = true) :
    ∃ c, p.checkedClass x.instruction = .ok c ∧ x.Checks c := by
  obtain ⟨c, hc, hchecked⟩ := Step.perform_checked h.stands hop h.performed
  refine ⟨c, hprogram ▸ hc, ?_⟩
  cases hchecked with
  | postponed check running => exact .postponed running check
  | @passed w check rest =>
    have husable := (Call.initializeClass?_eq_ok_false check).2
    -- the check and what is behind it are two parts of the turn
    have hmoves : ReflTransGen (Kernel.Move p x.thread) x.before w.kernel :=
      hprogram ▸ (Call.moved_of_initializeClass? (p := x.machine.program) h.stands
        (fun _ => .checked hop hc) check).moves
    have hbehind : Kernel.Turn p w.kernel x.after :=
      hprogram ▸ .of_performed (hruns.advance (.of_moves hmoves)) rest
    have hchecking := Kernel.Proceeds.of_moves hp hguarded hruns hmoves
    have hproceeds := Kernel.Proceeds.of_turn hp hchecking.guarded hbehind
    exact .passed check husable fun d hd => hproceeds.precedes.usable (husable d hd)

/-! ## Many instructions -/

namespace Succession

/-- Whatever comes in a run goes on from what comes before. -/
theorem pairwise_proceeds (hp : p.InitializesOnUse) (h : Succession p k xs k') (hk : k.Guarded p) :
    (states xs k').Pairwise (Kernel.Proceeds p) ∧ ∀ k₁ ∈ states xs k', Kernel.Proceeds p k k₁ := by
  induction h with
  | nil k =>
    refine ⟨List.pairwise_singleton _ _, fun k₁ hk₁ => ?_⟩
    rw [List.mem_singleton.mp hk₁]
    exact .refl hk
  | @cons x xs m k k' before program runs leads _ ih =>
    subst before
    have hfirst := leads.proceeds hp program runs hk
    obtain ⟨hpairwise, hrest⟩ := ih hfirst.guarded
    refine ⟨List.pairwise_cons.mpr ⟨fun k₁ hk₁ => hfirst.trans (hrest k₁ hk₁), hpairwise⟩,
      List.forall_mem_cons.mpr ⟨.refl hk, fun k₁ hk₁ => hfirst.trans (hrest k₁ hk₁)⟩⟩

/-- The instructions of a run are performed in guarded states. -/
theorem forall_leadsTo (hp : p.InitializesOnUse) (h : Succession p k xs k') (hk : k.Guarded p) :
    ∀ x ∈ xs, x.machine.program = p ∧ x.before.Runs x.thread ∧ x.before.Guarded p ∧
      ∃ m, x.LeadsTo m := by
  induction h with
  | nil => simp
  | @cons x xs m k k' before program runs leads _ ih =>
    subst before
    exact List.forall_mem_cons.mpr ⟨⟨program, runs, hk, m, leads⟩,
      ih (leads.proceeds hp program runs hk).guarded⟩

/-- An initializer is entered at most once, and not at all if its class is not uninitialized. -/
theorem countP_enters (hp : p.InitializesOnUse) (h : Succession p k xs k') (hk : k.Guarded p)
    (c : ClassId) : xs.countP (fun x => decide (x.Enters c)) ≤ 1 ∧
      (k.classStatus c ≠ .ok .uninitialized →
        xs.countP (fun x => decide (x.Enters c)) = 0) := by
  induction h with
  | nil => simp
  | @cons x xs m k k' before program runs leads _ ih =>
    subst before
    have hfirst := leads.proceeds hp program runs hk
    obtain ⟨hle, hzero⟩ := ih hfirst.guarded
    rw [List.countP_cons]
    by_cases hx : x.Enters c
    · obtain ⟨hbefore, hafter, -⟩ := hfirst.entered x.thread c hx
      have hrest := hzero hafter
      simp only [hx, decide_true, if_true]
      exact ⟨by omega, fun hk => absurd hbefore hk⟩
    · simp only [hx, decide_false, Bool.false_eq_true, if_false, Nat.add_zero]
      exact ⟨hle, fun hk => hzero fun hafter => hk (hfirst.precedes.uninitialized hafter)⟩

end Succession

/-- The first state of a run is the one that its instructions start from. -/
theorem Succession.head_states (h : Succession p k xs k') : (states xs k').head? = some k := by
  cases h with
  | nil => rfl
  | cons before => exact congrArg some before

/-! ## Whole runs -/

/-- Classes are initialized as they should be along a run that goes through these instructions to
this state. -/
structure InitializesClasses (p : Program) (xs : List Performed) (k : Kernel) : Prop where
  /-- At first all classes are uninitialized. -/
  begins : ∀ k₀, (states xs k).head? = some k₀ → ∀ c s, k₀.classStatus c = .ok s →
    s = .uninitialized
  /-- The status of a class only goes forward: it is initialized from one state to a later one, or
  begins to be. -/
  advances : (states xs k).Pairwise Kernel.Precedes
  /-- The initializer of a class is entered at most once. -/
  once : ∀ c, xs.countP (fun x => decide (x.Enters c)) ≤ 1
  /-- While a class is being initialized, the monitor of its class object is owned by the thread
  that initializes it. -/
  owned : ∀ k' ∈ states xs k, ∀ c t, k'.classStatus c = .ok (.initializing t) →
    ∃ r o, k'.classObject c = .ok r ∧ k'.heap.get? r = some o ∧ o.monitor.owner? = some t
  /-- A thread that has entered the initializer of a class may use all proper superclasses. -/
  above : ∀ x ∈ xs, ∀ c, x.Enters c → ∀ d ∈ (p.chain c).tail, x.after.Usable x.thread d
  /-- An instruction that checks a class goes on only behind the check. -/
  checked : ∀ x ∈ xs, x.instruction.op.checksClass = true →
    ∃ c, p.checkedClass x.instruction = .ok c ∧ x.Checks c

/-- **Classes are initialized once, and in time.** Let a program be put together of methods that
were made from names and signatures, let the initializers of its classes be static, let no call name
one, and let no method take or give back monitors by instructions. Then along every run classes are
initialized as they should be, however many threads there are and however they are interleaved. -/
theorem Recorded.initializesClasses (hp : p.Made) (hstatic : p.HasStaticInitializers)
    (hmonitors : p.HasNoMonitorCode) (hcalls : p.CallsNoInitializers)
    (h : Recorded p config xs m) : InitializesClasses p xs m.kernel := by
  have hp : p.InitializesOnUse :=
    ⟨hp.built.wellFormed, hp.hasMadeMethods, hstatic, hcalls, hmonitors⟩
  obtain ⟨k, hstarted, hsuccession⟩ := h.succession
  have hguarded := Kernel.Guarded.start hstarted
  obtain ⟨hpairwise, hproceeds⟩ := hsuccession.pairwise_proceeds hp hguarded
  have hleads := hsuccession.forall_leadsTo hp hguarded
  exact {
    begins := fun k₀ hk₀ c s hs => by
      rw [hsuccession.head_states] at hk₀
      cases hk₀
      exact hstarted.uninitialized hs
    advances := hpairwise.imp fun h => h.precedes
    once := fun c => (hsuccession.countP_enters hp hguarded c).1
    owned := fun k' hk' c t hc => by
      have hguarded' := (hproceeds k' hk').guarded
      obtain ⟨r, hr⟩ := Kernel.exists_classStatus_iff.mp ⟨_, hc⟩
      obtain ⟨o, ho, howner, -⟩ := hguarded'.sound.exists_of_heldBy (hguarded'.held c t r hc hr)
      exact ⟨r, o, hr, ho, howner⟩
    above := fun x hx c hc => by
      obtain ⟨hprogram, hruns, hbefore, m', hm'⟩ := hleads x hx
      exact ((hm'.proceeds hp hprogram hruns hbefore).entered x.thread c hc).2.2
    checked := fun x hx hop => by
      obtain ⟨hprogram, hruns, hbefore, m', hm'⟩ := hleads x hx
      exact hm'.checks hp hprogram hruns hbefore hop }

/-! ## An example -/

/-- Two threads read a static field of a class that is initialized from a field of its superclass.
-/
def lazyCounter : Demo.Build Unit := do
  let intField (name : String) : FieldDecl := { name, descriptor := "I", modifiers := .static }
  let base ← Demo.declare { name := "demo/Base", fields := [intField "unit"] }
  Demo.define base "<clinit>" .static 0 fun a =>
    ((a.iconst 1).onField .putStatic "demo/Base" "unit" "I").emit .voidReturn
  let counter ← Demo.declare
    { name := "demo/Counter", superclass := "demo/Base", fields := [intField "count"] }
  Demo.define counter "<clinit>" .static 0 fun a =>
    ((a.onField .getStatic "demo/Base" "unit" "I").onField .putStatic "demo/Counter" "count"
      "I").emit .voidReturn
  Demo.defineWorker Demo.workerClass fun a =>
    ((a.onField .getStatic "demo/Counter" "count" "I").onLocal .iStore 0).emit .voidReturn
  let main ← Demo.declareMain []
  Demo.define main "main" Demo.mainModifiers 2 fun a =>
    (Demo.startAndJoin [Demo.workerClass, Demo.workerClass] a).emit .voidReturn

theorem keepsMade_lazyCounter : Demo.Keeps Program.Made lazyCounter :=
  (Demo.keepsMade_declare _).bind fun _ => (Demo.keepsMade_define _ _ _ _ _).bind fun _ =>
    (Demo.keepsMade_declare _).bind fun _ => (Demo.keepsMade_define _ _ _ _ _).bind fun _ =>
      Demo.Keeps.bind ((Demo.keepsMade_declare _).bind fun _ =>
        Demo.keepsMade_define _ _ _ _ _) fun _ => (Demo.keepsMade_declare _).bind fun _ =>
          Demo.keepsMade_define _ _ _ _ _

/-- One of the threads has run the initializer of the superclass. The other one is in the
initializer of the class, and owns the monitor of the class object. -/
theorem Recorded.initializesClasses_lazyCounter : ∃ p xs m r o,
    lazyCounter.run (Program.base .plain) = .ok ((), p) ∧ p.Made ∧ p.HasStaticInitializers ∧
      p.HasNoMonitorCode ∧ p.CallsNoInitializers ∧ Recorded p {} xs m ∧
      m.kernel.classStatus ⟨16⟩ = .ok .initialized ∧
      m.kernel.classStatus ⟨17⟩ = .ok (.initializing ⟨2⟩) ∧ m.kernel.classObject ⟨17⟩ = .ok r ∧
      m.kernel.heap.get? r = some o ∧ o.monitor.owner? = some ⟨2⟩ ∧
      InitializesClasses p xs m.kernel := by
  obtain ⟨p, m, hbuild, hdriven, htest⟩ := Driven.exists_of_demo lazyCounter
    [0, 0, 0, 0, 1, 0, 0, 1]
    (fun p m => (decide p.HasStaticInitializers && decide p.HasNoMonitorCode &&
      decide p.CallsNoInitializers) &&
      (m.kernel.classes[16]?.any (·.status == .initialized) &&
        m.kernel.classes[17]?.any (·.status == .initializing ⟨2⟩))) (by decide +kernel)
  simp only [Bool.and_eq_true, decide_eq_true_eq, Option.any_eq_true, beq_iff_eq] at htest
  obtain ⟨⟨⟨hstatic, hmonitors⟩, hcalls⟩, hbase, hcounter⟩ := htest
  replace hbase := Kernel.classStatus_eq_ok.mpr hbase
  replace hcounter := Kernel.classStatus_eq_ok.mpr hcounter
  have hmade : p.Made := keepsMade_lazyCounter (.base .plain) hbuild
  obtain ⟨xs, hrecorded⟩ := hdriven.exists_recorded
  have hinit := hrecorded.initializesClasses hmade hstatic hmonitors hcalls
  obtain ⟨r, o, hr, ho, howner⟩ := hinit.owned m.kernel (by simp [states]) ⟨17⟩ ⟨2⟩ hcounter
  exact ⟨p, xs, m, r, o, hbuild, hmade, hstatic, hmonitors, hcalls, hrecorded, hbase, hcounter, hr,
    ho, howner, hinit⟩

end Interleave.Machine
