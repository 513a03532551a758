import Interleave.Demo
import Interleave.Machine.Walk
import Interleave.Proofs.Machine.Agreement
import Interleave.Proofs.Slots

/-!
# Machines that are driven

A machine that was started is driven by transitions. A transition lets threads that can run take
turns; in its turn a thread makes some moves, after which it may wait or have ended. So whatever
holds of the state after the start, and is kept by each turn, holds of every state that is reached.

A machine between transitions is ready: it has been started, and the cursor of the generator that it
hands out has not been moved.
-/

namespace Interleave

open Effect Relation

namespace Kernel

/-- A thread that can run has taken a turn. -/
inductive Turn (p : Program) (k : Kernel) : Kernel → Prop where
  /-- It has made some moves. -/
  | ran {t : ThreadId} {k' : Kernel} (runs : k.Runs t) (moves : ReflTransGen (Move p t) k k') :
    Turn p k k'
  /-- After them, it waits. -/
  | stalled {t : ThreadId} {k' : Kernel} {s : ThreadStatus} (runs : k.Runs t)
    (moves : ReflTransGen (Move p t) k k') (stall : k'.Stall p t s) : Turn p k (k'.setStatus t s)
  /-- After them, it has ended. -/
  | ended {t : ThreadId} {k' : Kernel} (runs : k.Runs t) (moves : ReflTransGen (Move p t) k k') :
    Turn p k (k'.ended t)

/-- What a thread has done with an instruction that it ran is a turn, when it is settled what became
of the thread. -/
theorem Turn.of_performed {p : Program} {t : ThreadId} {w w' : Work} {out : Outcome}
    (runs : w.kernel.Runs t)
    (h : Work.Ran p t w w' ∨ (out = .running ∧ Work.Paused p t w w')) :
    Turn p w.kernel (out.settled w'.kernel t) := by
  have hsettle : ∀ k', ReflTransGen (Move p t) w.kernel k' →
      Turn p w.kernel (out.settled k' t) := by
    intro k' hmoves
    cases out with
    | running => exact .ran runs hmoves
    | finished => exact .ended runs hmoves
    | escaped r => exact .ended runs hmoves
  rcases h with hran | ⟨rfl, hpaused⟩
  · cases hran with
    | moved hmoved => exact hsettle _ hmoved.moves
    | consumed _ hmoved => exact hsettle _ hmoved.moves
  · cases hpaused with
    | stalled hmoved stall status =>
      show Turn p _ w'.kernel
      rw [status.kernel]
      exact .stalled runs hmoved.moves stall
    | asked _ _ _ _ hmoved => exact .ran runs hmoved.moves

/-- A thread stands in front of the call of a source of values, and this generator has been left
behind for the result of the call. -/
def Requests (p : Program) (k : Kernel) (t : ThreadId) (g : Generator) : Prop :=
  ∃ f i m s d, k.topFrame t = .ok f ∧ f.instruction = .ok i ∧ k.AtSource p f i m s ∧
    Call.sourceDomain m s f = .ok d ∧ g = { id := "nondet." ++ m.name, domain := d }

/-- The main thread has been made, and stands at the beginning of the stub that calls the main
method. -/
inductive Started (p : Program) : Kernel → Prop where
  | main {name : String} {c : Class} {main stub : Method} {f : Frame} {r : ObjRef} {h : Heap}
    (found : p.resolveClass name = .ok c) (method : Machine.mainMethod c = .ok main)
    (made : main.directCallStub "[main]" p.stamp = .ok stub) (stub : f.method = stub)
    (receiver : f.receiver = .null) (extension : (initial p).heap.Extends h) :
    Started p ((({ initial p with heap := h } : Kernel).addThread r).2.modifyThread
      (({ initial p with heap := h } : Kernel).addThread r).1 (·.pushFrame f))

end Kernel

namespace Machine

variable {m m' : Machine} {g : Generator} {e : TransitionEnd}

theorem Stepped.turn {t : ThreadId} {escaped : Bool} (runs : m.kernel.Runs t)
    (h : Stepped m t escaped m') : Kernel.Turn m.program m.kernel m'.kernel := by
  obtain ⟨i, w, out, w', hat, hk, -, -, hperform, hkernel, -⟩ := h.performed
  rw [← hk] at hat runs ⊢
  rw [hkernel]
  exact .of_performed runs (Step.perform_eq_ok hat hperform)

theorem Performed.LeadsTo.turn {x : Performed} (h : x.LeadsTo m')
    (hruns : x.before.Runs x.thread) :
    Kernel.Turn x.machine.program x.before m'.kernel := by
  rw [h.kernel]
  exact .of_performed hruns (Step.perform_eq_ok h.stands h.performed)

/-- The state after a round is reached by turns of threads. -/
theorem Rounded.turns {steps : Nat} {r : Nat ⊕ TransitionEnd} (h : Rounded m steps r m') :
    ReflTransGen (Kernel.Turn m.program) m.kernel m'.kernel := by
  have hoffers : ∀ {n n' : Machine}, n.Offers n' → n'.kernel = n.kernel :=
    fun ⟨_, hsame⟩ => hsame.kernel
  cases h with
  | finished => exact .refl
  | switched _ _ same => rw [same.kernel]
  | blocked _ offers => rw [hoffers offers]
  | broken _ offers => rw [hoffers offers]
  | stepped runs h _ => exact .single (h.turn runs)
  | asked runs h _ => exact .single (h.turn runs)
  | escaped runs h opened =>
    rcases opened with rfl | offers
    · exact .single (h.turn runs)
    · rw [hoffers offers]
      exact .single (h.turn runs)

/-- The state after a transition is reached by turns of threads, and the program is the same. -/
theorem transition_turns (hhost : m.hostCall = none) (h : transition g m = .ok e m') :
    (m'.program = m.program ∧ m'.config = m.config ∧ m'.hostCall = none) ∧
      ReflTransGen (Kernel.Turn m.program) m.kernel m'.kernel := by
  refine transition_induction
    (I := fun n => (n.program = m.program ∧ n.config = m.config) ∧
      ReflTransGen (Kernel.Turn m.program) m.kernel n.kernel)
    (Q := fun _ n => (n.program = m.program ∧ n.config = m.config ∧ n.hostCall = none) ∧
      ReflTransGen (Kernel.Turn m.program) m.kernel n.kernel) hhost ?_ ?_ ?_ h
  · intro c n _ hsame _
    refine ⟨⟨hsame.program, hsame.config⟩, ?_⟩
    rw [hsame.kernel]
    exact .refl
  · rintro n n' steps steps' ⟨⟨hp, hc⟩, hturns⟩ hn hrounded
    obtain ⟨hp', hc', -⟩ := hrounded.sameRun hn
    exact ⟨⟨hp'.trans hp, hc'.trans hc⟩, hturns.trans (hp ▸ hrounded.turns)⟩
  · rintro n n' steps e ⟨⟨hp, hc⟩, hturns⟩ hn hrounded
    obtain ⟨hp', hc', hn'⟩ := hrounded.sameRun hn
    exact ⟨⟨hp'.trans hp, hc'.trans hc, hn'⟩, hturns.trans (hp ▸ hrounded.turns)⟩

/-! ## Ready machines -/

/-- A machine is between transitions. -/
structure IsReady (m : Machine) : Prop where
  /-- It has been started. -/
  started : m.path.started = true
  /-- No call from outside is in progress. -/
  hostCall : m.hostCall = none
  /-- No choice of the generator that it hands out has been taken. -/
  untried : ∀ g, m.pending = some g → g.cursor = none

/-- An instruction leaves a generator behind where its thread is about to call a source of values,
and nothing has to happen before the call. -/
theorem Stepped.leaves {t : ThreadId} {escaped : Bool} (hnone : m.pending = none)
    (h : Stepped m t escaped m') (hg : m'.pending = some g) :
    escaped = false ∧ ReflTransGen (Kernel.Move m.program t) m.kernel m'.kernel ∧
      ∃ f i callee s d, m'.kernel.topFrame t = .ok f ∧ f.instruction = .ok i ∧
        m'.kernel.AtSource m.program f i callee s ∧ m'.kernel.MayCall m.program t i ∧
        Call.sourceDomain callee s f = .ok d ∧ g = { id := "nondet." ++ callee.name, domain := d } := by
  obtain ⟨i, w, out, w', hat, hk, -, hp, hperform, hkernel, -, hpending, hescaped⟩ := h.performed
  rw [← hk] at hat
  rw [hpending] at hg
  have hsame : w'.pending ≠ w.pending := by
    intro he
    rw [he, hp, hnone] at hg
    cases hg
  rcases Step.perform_eq_ok hat hperform with hran | ⟨rfl, hpaused⟩
  · cases hran with
    | moved hmoved => exact absurd hmoved.pending hsame
    | consumed _ hmoved => exact absurd hmoved.pending hsame
  · cases hpaused with
    | stalled hmoved _ status => exact absurd (status.pending.trans hmoved.pending) hsame
    | asked top instruction source domain hmoved _ pending may =>
      rw [pending] at hg
      cases hg
      refine ⟨by simpa using hescaped, ?_, ?_⟩
      · rw [hkernel, ← hk]
        exact hmoved.moves
      · rw [hkernel]
        exact ⟨_, _, _, _, _, top, instruction, source, may, domain, rfl⟩

/-- An instruction leaves a generator behind where its thread asks for a value. -/
theorem Stepped.requests {t : ThreadId} {escaped : Bool} (hnone : m.pending = none)
    (h : Stepped m t escaped m') (hg : m'.pending = some g) :
    escaped = false ∧ ReflTransGen (Kernel.Move m.program t) m.kernel m'.kernel ∧
      m'.kernel.Requests m.program t g := by
  obtain ⟨hstays, hmoves, f, i, callee, s, d, htop, hi, hsource, -, hd, rfl⟩ := h.leaves hnone hg
  exact ⟨hstays, hmoves, f, i, callee, s, d, htop, hi, hsource, hd, rfl⟩

/-- The generator that an instruction leaves behind has not been tried. -/
theorem Stepped.untried {t : ThreadId} {escaped : Bool} (hnone : m.pending = none)
    (h : Stepped m t escaped m') : ∀ g, m'.pending = some g → g.cursor = none := by
  intro g hg
  obtain ⟨-, -, f, i, callee, source, d, -, -, -, -, rfl⟩ := h.requests hnone hg
  rfl

/-- A machine is ready again after a transition. -/
theorem IsReady.transition (hm : m.IsReady) (h : m.transition g = .ok e m') : m'.IsReady := by
  have hoffers : ∀ {n n' : Machine}, n.Offers n' → ∀ g, n'.pending = some g → g.cursor = none := by
    rintro n n' ⟨id, hsame⟩ g hg
    rw [hsame.pending] at hg
    cases hg
    rfl
  have huntried : ∀ g, m'.pending = some g → g.cursor = none := by
    refine transition_induction (I := fun n => n.pending = none)
      (Q := fun _ n => ∀ g, n.pending = some g → g.cursor = none) hm.hostCall ?_ ?_ ?_ h
    · intro c n _ hsame _
      rw [hsame.pending]
      rfl
    · intro n n' steps steps' hnone _ hrounded
      cases hrounded with
      | switched _ _ same => exact same.pending.trans hnone
      | stepped _ _ settled => exact settled
    · intro n n' steps e hnone _ hrounded g hg
      cases hrounded with
      | finished =>
        rw [hnone] at hg
        cases hg
      | blocked _ offers => exact hoffers offers g hg
      | broken _ offers => exact hoffers offers g hg
      | asked _ h _ => exact h.untried hnone g hg
      | escaped _ h opened =>
        rcases opened with rfl | offers
        · exact h.untried hnone g hg
        · exact hoffers offers g hg
  exact ⟨(transition_trail hm.hostCall h).1.trans hm.started,
    (transition_turns hm.hostCall h).1.2.2, huntried⟩

/-- A thread has been added, with an object of its own and one frame. -/
theorem spawn_eq_ok {f : Frame} {t : ThreadId} (h : spawn f m = .ok t m') :
    ∃ r heap, m.kernel.heap.Extends heap ∧ m.kernel.heap.Kept heap ∧
      (∃ o, heap.get? r = some o) ∧ t = ⟨m.kernel.threads.size⟩ ∧
      m' = m.withKernel
        ((({ m.kernel with heap } : Kernel).addThread r).2.modifyThread t (·.pushFrame f)) := by
  unfold spawn newThreadObject at h
  simp only [bind_eq_ok, get_eq_ok, Action.lift_eq_ok, set_eq_ok, pure_eq_ok] at h
  obtain ⟨r, _, ⟨_, _, ⟨rfl, rfl⟩, c, m₀, ⟨-, rfl⟩, _, _, rfl, rfl, rfl⟩, _, _, ⟨rfl, rfl⟩, _, _,
    rfl, rfl, rfl⟩ := h
  exact ⟨_, _, Heap.Extends.push m₀.kernel.heap rfl, .allocInstance _ _ _ _,
    ⟨_, Heap.get?_push_self m₀.kernel.heap _⟩, rfl, rfl⟩

/-- A machine is started by adding a thread that calls the main method. -/
theorem start_cases {name : String} {u : Unit} (h : start name m = .ok u m') :
    ∃ c main stub f r heap, m.program.resolveClass name = .ok c ∧ mainMethod c = .ok main ∧
      main.directCallStub "[main]" m.program.stamp = .ok stub ∧ f.method = stub ∧
      f.receiver = .null ∧ m.kernel.heap.Extends heap ∧ m.kernel.heap.Kept heap ∧
      (∃ o, heap.get? r = some o) ∧
      m' = ({ m.withKernel ((({ m.kernel with heap } : Kernel).addThread r).2.modifyThread
          ⟨m.kernel.threads.size⟩ (·.pushFrame f)) with
        path := { m.path with current := ⟨m.kernel.threads.size⟩, started := true }
        queue := m.queue.push (.threadStarted ⟨m.kernel.threads.size⟩) }.deliver).register
          (.ofThreads "root" [⟨m.kernel.threads.size⟩]) := by
  unfold start at h
  rw [get_bind] at h
  cases hstarted : m.path.started with
  | true =>
    simp only [hstarted, if_true] at h
    cases h
  | false =>
    simp only [hstarted, Bool.false_eq_true, if_false, Action.lift_bind_eq_ok] at h
    obtain ⟨c, hc, main, hmain, stub, hstub, h⟩ := h
    rw [bind_eq_ok] at h
    obtain ⟨t, m₁, hspawn, h⟩ := h
    obtain ⟨r, heap, hextends, hkept, hobject, rfl, rfl⟩ := spawn_eq_ok hspawn
    rw [modify_eq_ok] at h
    refine ⟨c, main, stub, _, r, heap, hc, hmain, hstub, ?_, ?_, hextends, hkept, hobject, h⟩
    · split <;> rfl
    · split <;> rfl

/-- What has become of the state when a machine has been started. -/
theorem start_spawns {name : String} {u : Unit} (h : start name m = .ok u m') :
    ∃ c main stub f r heap, m.program.resolveClass name = .ok c ∧ mainMethod c = .ok main ∧
      main.directCallStub "[main]" m.program.stamp = .ok stub ∧ f.method = stub ∧
      f.receiver = .null ∧ m.kernel.heap.Extends heap ∧ m.kernel.heap.Kept heap ∧
      (∃ o, heap.get? r = some o) ∧ SameState { m with
        kernel := (({ m.kernel with heap } : Kernel).addThread r).2.modifyThread
          ⟨m.kernel.threads.size⟩ (·.pushFrame f)
        path := { m.path with current := ⟨m.kernel.threads.size⟩, started := true }
        pending := some (.ofThreads "root" [⟨m.kernel.threads.size⟩]) } m' := by
  obtain ⟨c, main, stub, f, r, heap, hc, hmain, hstub, hmethod, hreceiver, hextends, hkept, hobject,
    rfl⟩ := start_cases h
  have hregister : ∀ (n : Machine) (g : Generator), SameState { n with pending := some g }
      (n.deliver.register g) := by
    intro n g
    have hdeliver := SameState.deliver n
    refine SameState.trans ?_ (SameState.register n.deliver g)
    exact ⟨hdeliver.program, hdeliver.config, hdeliver.kernel, hdeliver.hostCall, hdeliver.path,
      rfl⟩
  have hsame := hregister
    { m.withKernel ((({ m.kernel with heap } : Kernel).addThread r).2.modifyThread
        ⟨m.kernel.threads.size⟩ (·.pushFrame f)) with
      path := { m.path with current := ⟨m.kernel.threads.size⟩, started := true }
      queue := m.queue.push (.threadStarted ⟨m.kernel.threads.size⟩) }
    (.ofThreads "root" [⟨m.kernel.threads.size⟩])
  exact ⟨c, main, stub, f, r, heap, hc, hmain, hstub, hmethod, hreceiver, hextends, hkept, hobject,
    hsame.program, hsame.config, hsame.kernel, hsame.hostCall, hsame.path, hsame.pending⟩

/-- A machine has just been started on a program. -/
theorem start_eq_ok {p : Program} {config : Config} {listening : Bool} {name : String} {u : Unit}
    (h : start name (Machine.new p config listening) = .ok u m) :
    (m.program = p ∧ m.config = config) ∧ Kernel.Started p m.kernel ∧ m.IsReady ∧
      m.path = { started := true } ∧ m.pending = some (.ofThreads "root" [.main]) := by
  obtain ⟨c, main, stub, f, r, heap, hc, hmain, hstub, hmethod, hreceiver, hextends, -, -, hsame⟩ :=
    start_spawns h
  refine ⟨⟨hsame.program, hsame.config⟩, ?_, ⟨?_, hsame.hostCall, ?_⟩, hsame.path, hsame.pending⟩
  · rw [hsame.kernel]
    exact .main hc hmain hstub hmethod hreceiver hextends
  · rw [hsame.path]
  · intro g hg
    rw [hsame.pending] at hg
    cases hg
    rfl

/-- What is kept when a thread takes a turn is kept by a transition. -/
theorem kernel_of_transition {I : Kernel → Prop} (hm : m.hostCall = none)
    (h : transition g m = .ok e m') (hturn : ∀ k k', I k → Kernel.Turn m.program k k' → I k')
    (hk : I m.kernel) : I m'.kernel := by
  have hturns := (transition_turns hm h).2
  generalize m'.kernel = k' at hturns ⊢
  induction hturns with
  | refl => exact hk
  | tail _ hlast ih => exact hturn _ _ ih hlast

/-- A choice of the pending generator leads from one state to the next. -/
inductive Follows (m : Machine) : Machine → Prop where
  | choice {g : Generator} {i : Nat} {e : TransitionEnd} {m' : Machine} (pending : m.pending = some g)
    (chosen : i < g.total) (transition : m.transition (g.select i).2 = .ok e m') : Follows m m'

/-- Some choices lead from one state to another. -/
def Reaches : Machine → Machine → Prop := ReflTransGen Follows

/-- Some transitions lead from one state to another, by choices of whatever generators. -/
def Leads : Machine → Machine → Prop := ReflTransGen fun m m' => ∃ g e, transition g m = .ok e m'

theorem Reaches.leads (h : m.Reaches m') : m.Leads m' := by
  induction h with
  | refl => exact .refl
  | tail _ hlast ih =>
    obtain ⟨-, -, htransition⟩ := hlast
    exact ih.tail ⟨_, _, htransition⟩

/-- What is kept when a thread takes a turn is kept wherever transitions lead. -/
theorem Leads.kernel_induction {I : Kernel → Prop} (h : m.Leads m') (hm : m.hostCall = none)
    (hturn : ∀ k k', I k → Kernel.Turn m.program k k' → I k') (hk : I m.kernel) : I m'.kernel := by
  suffices hlead : (m'.program = m.program ∧ m'.hostCall = none) ∧ I m'.kernel from hlead.2
  induction h with
  | refl => exact ⟨⟨rfl, hm⟩, hk⟩
  | tail _ hlast ih =>
    obtain ⟨g, e, htransition⟩ := hlast
    obtain ⟨⟨hprogram, hhost⟩, hk⟩ := ih
    obtain ⟨hsame, -, hhost'⟩ := (transition_turns hhost htransition).1
    exact ⟨⟨hsame.trans hprogram, hhost'⟩,
      kernel_of_transition hhost htransition (hprogram ▸ hturn) hk⟩

theorem IsReady.reaches (hm : m.IsReady) (h : m.Reaches m') : m'.IsReady := by
  induction h with
  | refl => exact hm
  | tail _ hlast ih =>
    obtain ⟨-, -, htransition⟩ := hlast
    exact ih.transition htransition

/-- A list of choices, counted round and round, leads to a state that choices lead to. -/
theorem IsReady.reaches_follow {is : List Nat} {u : Unit} (hm : m.IsReady)
    (h : follow is m = .ok u m') : m.Reaches m' := by
  induction is generalizing m with
  | nil =>
    obtain ⟨-, rfl⟩ := pure_eq_ok.mp h
    exact .refl
  | cons i is ih =>
    unfold follow at h
    simp only [get_bind, takePending, set_bind] at h
    cases hg : m.pending with
    | none =>
      rw [show ({ m with pending := none } : Machine) = m by rw [← hg]] at h
      simp only [hg] at h
      exact ih hm h
    | some g =>
      simp only [hg, bind_eq_ok] at h
      obtain ⟨e, n, htransition, hrest⟩ := h
      -- a transition does not look at what is pending
      rw [transition_eq_ok] at htransition
      replace htransition : m.transition (g.selectCyclic i) = .ok e n :=
        transition_eq_ok.mpr htransition
      unfold Generator.selectCyclic at htransition
      split at htransition
      · -- there is no current choice
        obtain ⟨-, c, -, hc, -⟩ := transition_eq_ok.mp htransition
        rw [Generator.current, hm.untried g hg] at hc
        cases hc
      · rename_i htotal
        exact (ih (hm.transition htransition) hrest).head
          ⟨hg, Nat.mod_lt i (Nat.pos_of_ne_zero htotal), htransition⟩

/-- A demonstration program can be put together and started in a state that passes a test, if the
test says so. -/
theorem exists_start (build : Demo.Build Unit) (config : Config) (listening : Bool)
    (test : Program → Machine → Bool)
    (h : ((build.run (Program.base .plain)).toOption.any fun r =>
      gives (start Demo.mainClass) (Machine.new r.2 config listening) fun _ m => test r.2 m) =
        true) :
    ∃ p m, build.run (Program.base .plain) = .ok ((), p) ∧
      start Demo.mainClass (Machine.new p config listening) = .ok () m ∧ test p m = true := by
  obtain ⟨⟨_, p⟩, hbuild, hgives⟩ := (Option.any_eq_true _ _).mp h
  obtain ⟨_, m, hstart, htest⟩ := gives_iff.mp hgives
  refine ⟨p, m, ?_, hstart, htest⟩
  cases he : build.run (Program.base .plain) with
  | ok r =>
    rw [he] at hbuild
    exact congrArg Except.ok (Option.some.inj hbuild)
  | error e =>
    rw [he] at hbuild
    cases hbuild

/-- The same when nobody listens. -/
theorem exists_start_of_build (build : Demo.Build Unit) (config : Config)
    (test : Program → Machine → Bool)
    (h : ((build.run (Program.base .plain)).toOption.any fun r =>
      gives (start Demo.mainClass) (Machine.new r.2 config false) fun _ m => test r.2 m) = true) :
    ∃ p m, build.run (Program.base .plain) = .ok ((), p) ∧
      start Demo.mainClass (Machine.new p config false) = .ok () m ∧ test p m = true :=
  exists_start build config false test h

theorem exists_start_of_demo (build : Demo.Build Unit) (test : Program → Machine → Bool)
    (h : ((build.run (Program.base .plain)).toOption.any fun r =>
      gives (start Demo.mainClass) (Machine.new r.2 {} false) fun _ m => test r.2 m) = true) :
    ∃ p m, build.run (Program.base .plain) = .ok ((), p) ∧
      start Demo.mainClass (Machine.new p {} false) = .ok () m ∧ test p m = true :=
  exists_start_of_build build {} test h

/-- A machine that was started on a program and driven by transitions. Which choices are taken does
not matter. -/
inductive Driven (p : Program) (config : Config) : Machine → Prop where
  /-- It has just been started. -/
  | start {listening : Bool} {name : String} {m : Machine}
    (h : Machine.start name (Machine.new p config listening) = .ok () m) : Driven p config m
  /-- A transition has been run. -/
  | transition {m m' : Machine} {g : Generator} {e : TransitionEnd} (driven : Driven p config m)
    (h : Machine.transition g m = .ok e m') : Driven p config m'

namespace Driven

variable {p : Program} {config : Config}

theorem isReady (h : Driven p config m) : m.IsReady := by
  induction h with
  | start h => exact (start_eq_ok h).2.2.1
  | transition _ h ih => exact ih.transition h

theorem sameRun (h : Driven p config m) : m.program = p ∧ m.config = config := by
  induction h with
  | start h => exact (start_eq_ok h).1
  | transition driven h ih =>
    obtain ⟨hp, hc, -⟩ := (transition_turns driven.isReady.hostCall h).1
    exact ⟨hp.trans ih.1, hc.trans ih.2⟩

/-- Choices drive a machine. -/
theorem reaches (h : Driven p config m) (hreaches : m.Reaches m') : Driven p config m' := by
  induction hreaches with
  | refl => exact h
  | tail _ hlast ih =>
    obtain ⟨-, -, htransition⟩ := hlast
    exact ih.transition htransition

/-- A program reaches a state that passes a test, if following a list of choices leads to one. -/
theorem exists_of_build (build : Demo.Build Unit) (config : Config) (is : List Nat)
    (test : Program → Machine → Bool)
    (h : ((build.run (Program.base .plain)).toOption.any fun r =>
      gives (Machine.start Demo.mainClass) (Machine.new r.2 config false) fun _ m =>
        gives (Machine.follow is) m fun _ m => test r.2 m) = true) :
    ∃ p m, build.run (Program.base .plain) = .ok ((), p) ∧ Driven p config m ∧
      test p m = true := by
  obtain ⟨p, m, hbuild, hstart, hgives⟩ := exists_start_of_build build config
    (fun p m => gives (Machine.follow is) m fun _ m => test p m) h
  obtain ⟨_, m', hfollow, htest⟩ := gives_iff.mp hgives
  have hdriven := Driven.start hstart
  exact ⟨p, m', hbuild, hdriven.reaches (hdriven.isReady.reaches_follow hfollow), htest⟩

theorem exists_of_demo (build : Demo.Build Unit) (is : List Nat) (test : Program → Machine → Bool)
    (h : ((build.run (Program.base .plain)).toOption.any fun r =>
      gives (Machine.start Demo.mainClass) (Machine.new r.2 {} false) fun _ m =>
        gives (Machine.follow is) m fun _ m => test r.2 m) = true) :
    ∃ p m, build.run (Program.base .plain) = .ok ((), p) ∧ Driven p {} m ∧ test p m = true :=
  exists_of_build build {} is test h

/-- What holds of the state after the start, and is kept when a thread takes a turn, holds of every
state that is reached. -/
theorem kernel_induction {I : Kernel → Prop} (hstart : ∀ k, Kernel.Started p k → I k)
    (hturn : ∀ k k', I k → Kernel.Turn p k k' → I k') (h : Driven p config m) : I m.kernel := by
  induction h with
  | start h => exact hstart _ (start_eq_ok h).2.1
  | transition driven h ih =>
    exact kernel_of_transition driven.isReady.hostCall h (driven.sameRun.1 ▸ hturn) ih

end Driven

end Machine

end Interleave
