import Lifecycle.Proofs.Kernel.Answering
import Lifecycle.Proofs.Session.Begetting
import Lifecycle.Proofs.Session.Hale

/-! What a call to wait is answered in a session, and what it leaves behind, whatever moves have
been made before: with forks under way, in a table that is shut down, and for processes that are
held after they have been reaped. -/

namespace Lifecycle.Session

/-- What becomes of a call to wait, by what it comes to. -/
structure Answers (s : Session) (caller : Pid) (target : Int64) (options : Int32) (via : Via)
    (destination : Option RawStatus) : Prop where
  /-- Whoever is refused leaves no trace. -/
  refused : ∀ error, s.kernel.verdict caller target options = .refused error →
    s.step (.wait caller target options via destination) =
      (.waited ⟨via, .error error, destination⟩, [], s)
  collects : ∀ b, s.kernel.verdict caller target options = .collects b → ∃ k',
    s.step (.wait caller target options via destination) =
        (.waited ⟨via, .ok ((s.kernel.block b).pid, (s.kernel.block b).code),
          destination.map fun _ => (s.kernel.block b).code⟩, [], { s with kernel := k' }) ∧
      s.kernel.Consumes b k'
  /-- The sleeper has a reference on its block, and nothing but that and the flag changes. -/
  sleeps : ∀ b, s.kernel.verdict caller target options = .sleeps b →
    s.step (.wait caller target options via destination) =
      (.blocked s.nextWait, [], { s with
        kernel := s.kernel.update b fun x =>
          { x with waiter := true, refCount := x.refCount + 1 }
        parked := s.parked ++
          [⟨s.nextWait, b, caller, via, s.contexts.get? caller, destination⟩]
        nextWait := s.nextWait + 1 })

variable {s s' : Session} {caller : Pid} {target : Int64} {options : Int32} {via : Via}

/-- Nobody is to be woken as long as those who are slept on run. -/
theorem settled_of_running (hd : s.Settled)
    (hk : ∀ b, (s.kernel.block b).state = .running → (s'.kernel.block b).state = .running)
    (hp : ∀ w ∈ s'.parked, w ∈ s.parked ∨ (s'.kernel.block w.block).state = .running) :
    s'.Settled := by
  intro w hw
  have hrunning : (s'.kernel.block w.block).state = .running := by
    rcases hp w hw with hold | hnew
    · refine hk _ (Classical.not_not.1 fun hn => ?_)
      exact Bool.false_ne_true ((hd w hold).symm.trans ((isDue_iff ..).2 hn))
    · exact hnew
  rw [← Bool.not_eq_true, isDue_iff]
  exact not_not.2 hrunning

/-- Nothing comes of a call that cannot be made. -/
theorem act_wait_of_cannot (hcan : s.canCall via caller = false) (target : Int64)
    (options : Int32) (destination : Option RawStatus) :
    s.act (.wait caller target options via destination) = (.noContext, s) := by
  change s.wait caller target options via destination = _
  rw [wait, hcan]
  rfl

/-- A call that can be made, with what the table tells of it. -/
theorem act_wait_eq {r : List Pid} (h : s.kernel.Sane r) (hcan : s.canCall via caller = true)
    (target : Int64) (options : Int32) (destination : Option RawStatus) :
    s.act (.wait caller target options via destination) =
      match s.kernel.verdict caller target options with
      | .refused error => (.waited ⟨via, .error error, destination⟩, s)
      | .collects b =>
        (.waited ⟨via, .ok ((s.kernel.block b).pid, (s.kernel.block b).code),
          destination.map fun _ => (s.kernel.block b).code⟩,
          { s with kernel := ((s.kernel.update b .consumed).release b).2 })
      | .sleeps b => (.blocked s.nextWait, { s with
          kernel := s.kernel.update b fun x => x.retained.committed
          parked := s.parked ++
            [⟨s.nextWait, b, caller, via, s.contexts.get? caller, destination⟩]
          nextWait := s.nextWait + 1 }) := by
  change s.wait caller target options via destination = _
  unfold Session.wait
  rw [hcan, if_neg (by simp), h.wait_eq]
  cases s.kernel.verdict caller target options <;> rfl

/-- A wait that collects wakes nobody. -/
theorem Hale.step_wait_collects (h : s.Hale) (hcan : s.canCall via caller = true)
    (destination : Option RawStatus) {b : BlockId}
    (hv : s.kernel.verdict caller target options = .collects b) :
    s.step (.wait caller target options via destination) =
        (.waited ⟨via, .ok ((s.kernel.block b).pid, (s.kernel.block b).code),
          destination.map fun _ => (s.kernel.block b).code⟩, [],
          { s with kernel := ((s.kernel.update b .consumed).release b).2 }) ∧
      s.kernel.Consumes b ((s.kernel.update b .consumed).release b).2 := by
  have hact := act_wait_eq (.inl h.intact) hcan target options destination
  obtain ⟨hb, hzombie⟩ := Kernel.verdict_collects hv
  have hconsumes := h.kernel.consumes (h.intact.signedPid_named hb).2 hzombie
  rw [hv] at hact
  refine ⟨step_of_settled hact
    (settled_of_running h.settled (fun x hx => ?_) fun w hw => Or.inl hw), hconsumes⟩
  have hxb : x ≠ b := by
    rintro rfl
    cases hx.symm.trans hzombie
  exact (congrArg Block.state (hconsumes.others x hxb)).trans hx

theorem answers {r : List Pid} (hk : s.kernel.Sane r) (hd : s.Settled)
    (hale : s.kernel.live = true → s.Hale) (hcan : s.canCall via caller = true)
    (target : Int64) (options : Int32) (destination : Option RawStatus) :
    s.Answers caller target options via destination := by
  have hact := act_wait_eq hk hcan target options destination
  refine ⟨fun error hv => ?_, fun b hv => ?_, fun b hv => ?_⟩
  · rw [hv] at hact
    exact step_of_settled hact hd
  · obtain ⟨hb, -⟩ := Kernel.verdict_collects hv
    have hlive := (Kernel.named?_eq_some_iff.1 hb).1
    exact ⟨_, (hale hlive).step_wait_collects hcan destination hv⟩
  · rw [hv] at hact
    obtain ⟨-, hrunning⟩ := Kernel.verdict_sleeps hv
    have hstate := Kernel.view_update (k := s.kernel) (b := b)
      (f := fun x => x.retained.committed) Block.state rfl
    refine step_of_settled hact (settled_of_running hd (fun x hx => (hstate x).trans hx)
      fun w hw => ?_)
    refine (List.mem_append.1 hw).imp_right fun hw => ?_
    obtain rfl := List.mem_singleton.1 hw
    exact (hstate b).trans hrunning

/-- After any moves, permitted or not, a call to wait comes to what the table tells. -/
theorem wait_answers {config : Config} {refusal : Option Errno} {moves : List Move}
    (hb : boot config refusal = .ok s) (hf : (s.run moves).kernel.fault = none)
    (hcan : (s.run moves).canCall via caller = true) (target : Int64) (options : Int32)
    (destination : Option RawStatus) :
    (s.run moves).Answers caller target options via destination := by
  obtain ⟨hfirm, hsettled⟩ := firm_boot hb
  obtain ⟨hs, hd⟩ := hfirm.run hsettled moves
  exact answers (hs.kernel hf) hd
    (hale_run hfirm hsettled (fun _ _ => hale_boot hb) moves hf) hcan target options destination

/-- A process may wait for a zombie, one that a slot holds, one that is reaped and held, one that
runs, one that is waited for already, and one that is still being forked. -/
theorem wait_answers_by_state : ∃ s : Session, ∃ moves : List Move,
    boot { maxProcesses := 16 } none = .ok s ∧ (s.run moves).kernel.fault = none ∧
      (s.run moves).frames.length = 1 ∧ (s.run moves).canCall .syscall 1 = true ∧
      ([2, 3, 4, 5, 6, 7, 8, 0].map fun target => (s.run moves).kernel.verdict 1 target 0) =
        [.collects 2, .collects 3, .refused (.noSuchProcess 4), .sleeps 5,
          .refused (.alreadyWaited 6), .refused (.notChild 7 1), .refused (.noSuchProcess 8),
          .refused (.noSuchProcess 0)] ∧
      (s.run moves).kernel.verdict 1 1 0 = .refused (.notChild 1 1) ∧
      (s.run moves).kernel.verdict 1 2 1 = .refused (.invalidOptions 1) ∧
      ∀ target options, (s.run moves).Answers 1 target options .syscall (some 77) := by
  let moves : List Move :=
    [.fork 0 .context, .resume none, .resume none, .resume none, .resume none,
      .fork 1 .context, .resume none, .resume none, .resume none, .resume none,
      .fork 1 .context, .resume none, .resume none, .resume none, .resume none,
      .fork 1 .context, .resume none, .resume none, .resume none, .resume none,
      .fork 1 .context, .resume none, .resume none, .resume none, .resume none,
      .fork 1 .context, .resume none, .resume none, .resume none, .resume none,
      .get 3 0, .get 4 1, .exit 2 ⟨.exited, 5⟩, .exit 3 ⟨.exited, 6⟩, .exit 4 ⟨.signaled, 9⟩,
      .wait 1 4 0 .table none, .wait 1 6 0 .table none, .fork 5 .context, .resume none]
  obtain ⟨s, hb, hf, hframes, hcan, hverdicts⟩ : ∃ s : Session,
      boot { maxProcesses := 16 } none = .ok s ∧ (s.run moves).kernel.fault = none ∧
        (s.run moves).frames.length = 1 ∧ (s.run moves).canCall .syscall 1 = true ∧
        ([2, 3, 4, 5, 6, 7, 8, 0].map fun target => (s.run moves).kernel.verdict 1 target 0) =
          [.collects 2, .collects 3, .refused (.noSuchProcess 4), .sleeps 5,
            .refused (.alreadyWaited 6), .refused (.notChild 7 1), .refused (.noSuchProcess 8),
            .refused (.noSuchProcess 0)] ∧
        (s.run moves).kernel.verdict 1 1 0 = .refused (.notChild 1 1) ∧
        (s.run moves).kernel.verdict 1 2 1 = .refused (.invalidOptions 1) :=
    ⟨_, rfl, by decide +kernel⟩
  exact ⟨s, moves, hb, hf, hframes, hcan, hverdicts.1, hverdicts.2.1, hverdicts.2.2,
    fun target options => wait_answers hb hf hcan target options (some 77)⟩

end Lifecycle.Session
