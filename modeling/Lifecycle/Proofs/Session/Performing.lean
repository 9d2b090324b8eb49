import Lifecycle.Proofs.Kernel.Downtime
import Lifecycle.Proofs.Session.History

/-! What a move can do, said once. It is declined and changes nothing, or it does one of
the things of `Performs`; with a slot that is not empty these are the things of `Handles`.
What every move keeps is then proved by cases on what it performs. When the table is shut
down, little is left of it. -/

namespace Lifecycle

/-- Whether a reply declines a move: something it needs is not there, or is in use. -/
def Reply.declines : Reply → Bool
  | .noContext => true
  | .busy => true
  | .emptySlot => true
  | .idle => true
  | _ => false

namespace Session

/-- What a move does with a slot that is not empty. -/
inductive Handles (s : Session) : Move → Reply × Session → Prop
  | shared {slot target b} (held : s.slots.get? slot = some (.ref b)) :
      Handles s (.clone slot target)
        (.cloned ((s.kernel.retain b).block b).info,
          store { s with kernel := s.kernel.retain b } target (.ref b))
  | copied {slot target b} (held : s.slots.get? slot = some (.bare b)) :
      Handles s (.clone slot target)
        (.cloned (s.kernel.block b).info, s.store target (.bare b))
  | released {slot content} (held : s.slots.get? slot = some content) :
      Handles s (.release slot)
        (.released (s.kernel.release content.block).1,
          vacate { s with kernel := (s.kernel.release content.block).2 } slot)
  | dropped {slot content} (held : s.slots.get? slot = some content) :
      Handles s (.drop slot) (.dropped, (s.vacate slot).discard (some content))
  | overReleased {slot content} (held : s.slots.get? slot = some content) :
      Handles s (.overRelease slot)
        (.released (s.kernel.release content.block).1,
          { s with kernel := (s.kernel.release content.block).2 })

/-- What a move does. -/
inductive Performs (s : Session) : Move → Reply × Session → Prop
  | declined {move reply} (declines : reply.declines = true) : Performs s move (reply, s)
  | fork {pid via} (can : s.canCall via pid = true) :
      Performs s (.fork pid via)
        (proceed { s with kernel := (s.kernel.beginFork pid).2 }
          (.fork via (s.forkContext? via pid)) (s.kernel.beginFork pid).1)
  | create {name slot} :
      Performs s (.create name slot)
        (proceed { s with kernel := (s.kernel.beginCreate name).2 }
          (.create slot) (s.kernel.beginCreate name).1)
  | resume {f fs refusal} (stopped : s.frames = f :: fs) :
      Performs s (.resume refusal)
        (proceed { s with kernel := (s.kernel.resume f.pending refusal).2, frames := fs } f.purpose
          (s.kernel.resume f.pending refusal).1)
  | exit {pid status context} (serves : s.contexts.get? pid = some context)
      (free : s.isBusy context = false) :
      Performs s (.exit pid status)
        (.exited pid (s.kernel.exitThread pid status).1,
          { s with
            kernel := (s.kernel.exitThread pid status).2
            contexts := s.contexts.erase pid })
  | waited {caller target options via destination result k'} (can : s.canCall via caller = true)
      (wait : s.kernel.wait caller target options = (.done result, k')) :
      Performs s (.wait caller target options via destination)
        (.waited ⟨via, result, copyOut destination result⟩, { s with kernel := k' })
  | slept {caller target options via destination b k'} (can : s.canCall via caller = true)
      (wait : s.kernel.wait caller target options = (.asleep b, k')) :
      Performs s (.wait caller target options via destination)
        (.blocked s.nextWait,
          { s with
            kernel := k'
            parked := s.parked ++
              [⟨s.nextWait, b, caller, via, s.contexts.get? caller, destination⟩]
            nextWait := s.nextWait + 1 })
  | missed {pid slot} : Performs s (.get pid slot) (.got none, s)
  | got {pid slot b} (found : s.kernel.Found pid b) :
      Performs s (.get pid slot)
        (.got (some ((s.kernel.update b .retained).block b).info),
          store { s with kernel := s.kernel.update b .retained } slot (.ref b))
  | slot {move out} (handles : s.Handles move out) : Performs s move out
  | shutdown :
      Performs s .shutdown (.leaked s.kernel.shutdown.1, { s with kernel := s.kernel.shutdown.2 })

/-- What a move has stopped when it stops a fork or creation. -/
inductive Stopping (s : Session) : Move → Frame → Prop
  | fork {pid via parent p} (begun : (s.kernel.beginFork pid).1 = .stopped (.forkTask parent p)) :
      Stopping s (.fork pid via) ⟨.forkTask parent p, .fork via (s.forkContext? via pid)⟩
  | create {name slot p} (begun : (s.kernel.beginCreate name).1 = .stopped (.create p name)) :
      Stopping s (.create name slot) ⟨.create p name, .create slot⟩
  | resume {f fs refusal next} (stopped : s.frames = f :: fs)
      (resumed : (s.kernel.resume f.pending refusal).1 = .stopped next) :
      Stopping s (.resume refusal) ⟨next, f.purpose⟩

/-- What a move does when the table is shut down: what needs the table tells nothing, and
forks that had stopped and slots are as they were. -/
inductive PerformsDown (s : Session) : Move → Reply × Session → Prop
  | refused {move reply} (silent : ∀ k, s.actEvents move reply k = []) :
      PerformsDown s move (reply, s)
  | exit {pid status} :
      PerformsDown s (.exit pid status)
        (.exited pid none, { s with contexts := s.contexts.erase pid })
  | resume {f fs refusal} (stopped : s.frames = f :: fs) :
      PerformsDown s (.resume refusal)
        (proceed { s with kernel := (s.kernel.resume f.pending refusal).2, frames := fs } f.purpose
          (s.kernel.resume f.pending refusal).1)
  | slot {move out} (handles : s.Handles move out) : PerformsDown s move out

variable {s : Session} {move : Move} {out : Reply × Session}

/-! ### Slots and replies -/

section Replies

/-! Dropping and filling slots, and taking the result of a fork or creation, give back one
reference at most. -/

variable {P : Kernel → Prop} (hs : P s.kernel) (hr : ∀ b, P (s.kernel.release b).2)
include hs hr

theorem discard_of (content : Option Slot) : P (s.discard content).kernel := by
  rcases content with _ | b | b
  · exact hs
  · exact hr b
  · exact hs

theorem store_of (slot : Nat) (content : Slot) : P (s.store slot content).kernel :=
  discard_of (s := { s with slots := s.slots.insert slot content }) hs hr (s.slots.get? slot)

theorem proceed_of (purpose : Purpose) (progress : Progress) :
    P (s.proceed purpose progress).2.kernel := by
  unfold proceed
  split
  · exact hs
  · exact store_of hs hr ..
  all_goals exact hs

end Replies

/-- What a fork or creation comes to changes no block any more. -/
theorem quiet_proceed (s : Session) (purpose : Purpose) (progress : Progress) :
    s.kernel.Quiet (s.proceed purpose progress).2.kernel :=
  proceed_of (.refl _) (fun _ => Kernel.quiet_release ..) purpose progress

theorem live_proceed (s : Session) (purpose : Purpose) (progress : Progress) :
    (s.proceed purpose progress).2.kernel.live = s.kernel.live :=
  proceed_of (P := (·.live = s.kernel.live)) rfl (fun _ => Kernel.live_release ..) purpose progress

theorem frames_discard (s : Session) (content : Option Slot) :
    (s.discard content).frames = s.frames := by
  rcases content with _ | b | b <;> rfl

theorem parked_discard (s : Session) (content : Option Slot) :
    (s.discard content).parked = s.parked := by
  rcases content with _ | b | b <;> rfl

theorem contexts_discard (s : Session) (content : Option Slot) :
    (s.discard content).contexts = s.contexts := by
  rcases content with _ | b | b <;> rfl

theorem frames_store (s : Session) (slot : Nat) (content : Slot) :
    (s.store slot content).frames = s.frames :=
  frames_discard ..

theorem parked_store (s : Session) (slot : Nat) (content : Slot) :
    (s.store slot content).parked = s.parked :=
  parked_discard ..

theorem contexts_store (s : Session) (slot : Nat) (content : Slot) :
    (s.store slot content).contexts = s.contexts :=
  contexts_discard ..

/-- A fork that stops again is the innermost. -/
theorem frames_proceed (s : Session) (purpose : Purpose) (progress : Progress) :
    (s.proceed purpose progress).2.frames =
      match progress with
      | .stopped pending => ⟨pending, purpose⟩ :: s.frames
      | _ => s.frames := by
  unfold proceed
  split
  · rfl
  · exact frames_store ..
  all_goals rfl

theorem parked_proceed (s : Session) (purpose : Purpose) (progress : Progress) :
    (s.proceed purpose progress).2.parked = s.parked := by
  unfold proceed
  split
  · rfl
  · exact parked_store ..
  all_goals rfl

theorem act_resume_of_nil (hf : s.frames = []) (refusal : Option Errno) :
    s.act (.resume refusal) = (.idle, s) := by
  rw [act, hf]

theorem act_resume_of_cons {f : Frame} {fs : List Frame} (hf : s.frames = f :: fs)
    (refusal : Option Errno) : s.act (.resume refusal) =
      proceed { s with kernel := (s.kernel.resume f.pending refusal).2, frames := fs } f.purpose
        (s.kernel.resume f.pending refusal).1 := by
  rw [act, hf]

/-! ### What there is in a slot -/

namespace Handles

variable (hh : s.Handles move out)
include hh

/-- What holds of a table and goes on when references are given back and taken. -/
theorem kernel_of {P : Kernel → Prop} (hs : P s.kernel)
    (hrelease : ∀ k b, P k → P (k.release b).2) (hretain : ∀ b, P (s.kernel.retain b)) :
    P out.2.kernel := by
  cases hh with
  | @shared _ _ b => exact store_of (hretain b) (fun c => hrelease _ c (hretain b)) ..
  | copied => exact store_of hs (fun c => hrelease _ c hs) ..
  | released => exact hrelease _ _ hs
  | dropped => exact discard_of (s := s.vacate _) hs (fun c => hrelease _ c hs) _
  | overReleased => exact hrelease _ _ hs

theorem quiet : s.kernel.Quiet out.2.kernel :=
  hh.kernel_of (.refl _) (fun _ _ hk => hk.trans (Kernel.quiet_release ..))
    fun _ => Kernel.quiet_retain ..

theorem live : out.2.kernel.live = s.kernel.live :=
  hh.kernel_of (P := (·.live = s.kernel.live)) rfl (fun k b hk => (k.live_release b).trans hk)
    fun b => by
      rw [Kernel.retain_eq]
      split <;> rfl

theorem frames : out.2.frames = s.frames := by
  cases hh with
  | shared => exact frames_store ..
  | copied => exact frames_store ..
  | dropped => exact frames_discard ..
  | _ => rfl

theorem parked : out.2.parked = s.parked := by
  cases hh with
  | shared => exact parked_store ..
  | copied => exact parked_store ..
  | dropped => exact parked_discard ..
  | _ => rfl

theorem contexts : out.2.contexts = s.contexts := by
  cases hh with
  | shared => exact contexts_store ..
  | copied => exact contexts_store ..
  | dropped => exact contexts_discard ..
  | _ => rfl

end Handles

/-! ### Moves -/

/-- What holds of a session holds after an act on a slot, if it does when there is something in
the slot. -/
theorem withSlot_of {P : Session → Prop} (hs : P s) {slot : Nat} {act : Slot → Reply × Session}
    (ha : ∀ content, P (act content).2) : P (s.withSlot slot act).2 := by
  unfold withSlot
  split
  · exact ha _
  · exact hs

theorem performs_of_slot (slot : Nat) {act : Slot → Reply × Session}
    (ha : ∀ content, s.slots.get? slot = some content → s.Handles move (act content)) :
    s.Performs move (s.withSlot slot act) := by
  unfold withSlot
  split
  · next content hc => exact .slot (ha content hc)
  · exact .declined rfl

/-- Every move does one of these things. -/
theorem performs (s : Session) (move : Move) : s.Performs move (s.act move) := by
  cases move with
  | fork pid via =>
    unfold act
    dsimp only
    split
    · exact .declined rfl
    · next hcan => exact .fork (by simpa using hcan)
  | create name slot => exact .create
  | resume refusal =>
    cases hf : s.frames with
    | nil =>
      rw [act_resume_of_nil hf]
      exact .declined rfl
    | cons f fs =>
      rw [act_resume_of_cons hf]
      exact .resume hf
  | exit pid status =>
    unfold act Session.exit
    dsimp only
    split
    · exact .declined rfl
    · next context hc =>
      split
      · exact .declined rfl
      · next hb => exact .exit hc (eq_false_of_ne_true hb)
  | wait caller target options via destination =>
    unfold act Session.wait
    dsimp only
    split
    · exact .declined rfl
    · next hcan =>
      split
      · next hw => exact .waited (by simpa using hcan) hw
      · next hw => exact .slept (by simpa using hcan) hw
  | get pid slot =>
    have hl := s.kernel.looks pid
    unfold act
    dsimp only
    generalize s.kernel.get pid = out at hl ⊢
    cases hl with
    | missed => exact .missed
    | found found => exact .got found
  | clone slot target =>
    refine performs_of_slot slot fun content hc => ?_
    cases content with
    | ref b => exact .shared hc
    | bare b => exact .copied hc
  | release slot => exact performs_of_slot slot fun content hc => .released hc
  | drop slot => exact performs_of_slot slot fun content hc => .dropped hc
  | overRelease slot => exact performs_of_slot slot fun content hc => .overReleased hc
  | shutdown => exact .shutdown

/-- An exit does nothing, or takes the process out that its context serves. -/
theorem exit_eq (s : Session) (pid : Pid) (status : ExitStatus) :
    (s.act (.exit pid status)).2 = s ∨ (∃ n, s.contexts.get? pid = some n) ∧
      (s.act (.exit pid status)).2 = { s with
        kernel := (s.kernel.exitThread pid status).2, contexts := s.contexts.erase pid } := by
  have hp := s.performs (.exit pid status)
  generalize s.act (.exit pid status) = out at hp ⊢
  cases hp with
  | declined => exact Or.inl rfl
  | exit serves => exact Or.inr ⟨⟨_, serves⟩, rfl⟩
  | slot handles => cases handles

theorem mem_frames_proceed {purpose : Purpose} {progress : Progress} {f : Frame}
    (hf : f ∈ (s.proceed purpose progress).2.frames) :
    f ∈ s.frames ∨ ∃ next, progress = .stopped next ∧ f = ⟨next, purpose⟩ := by
  rw [frames_proceed] at hf
  split at hf
  · next next =>
    rcases List.mem_cons.1 hf with rfl | hf
    · exact Or.inr ⟨next, rfl, rfl⟩
    · exact Or.inl hf
  · exact Or.inl hf

/-- What is stopped after a move was so before, or has been stopped in it. -/
theorem stopped_of_act {f : Frame} (hf : f ∈ (s.act move).2.frames) :
    f ∈ s.frames ∨ s.Stopping move f := by
  have hp := s.performs move
  generalize s.act move = out at hp hf
  cases hp with
  | @fork pid =>
    refine (mem_frames_proceed hf).imp_right ?_
    rintro ⟨next, hn, rfl⟩
    rcases s.kernel.beginFork_cases pid with ⟨error, hb⟩ | ⟨parent, p, hb⟩
    · cases hb.symm.trans hn
    · cases hb.symm.trans hn
      exact .fork hb
  | @create name =>
    refine (mem_frames_proceed hf).imp_right ?_
    rintro ⟨next, hn, rfl⟩
    rcases s.kernel.beginCreate_cases name with ⟨error, hb⟩ | ⟨p, hb⟩
    · cases hb.symm.trans hn
    · cases hb.symm.trans hn
      exact .create hb
  | resume stopped =>
    rcases mem_frames_proceed hf with hf | ⟨next, hn, rfl⟩
    · exact Or.inl (stopped ▸ List.mem_cons_of_mem _ hf)
    · exact Or.inr (.resume stopped hn)
  | got =>
    rw [frames_store] at hf
    exact Or.inl hf
  | slot handles => exact Or.inl (handles.frames ▸ hf)
  | _ => exact Or.inl hf

/-! ### When the table is shut down -/

theorem actEvents_of_declines {reply : Reply} (hr : reply.declines = true) (move : Move)
    (k : Kernel) : s.actEvents move reply k = [] := by
  cases reply with
  | noContext => cases move <;> rfl
  | busy => cases move <;> rfl
  | emptySlot => cases move <;> rfl
  | idle => cases move <;> rfl
  | _ => cases hr

theorem Performs.down (hp : s.Performs move out) (hl : s.kernel.live = false) :
    s.PerformsDown move out := by
  cases hp with
  | declined declines => exact .refused (actEvents_of_declines declines move)
  | fork can =>
    rw [Kernel.beginFork_of_dead hl]
    exact .refused fun _ => rfl
  | create =>
    rw [Kernel.beginCreate_of_dead hl]
    exact .refused fun _ => rfl
  | resume stopped => exact .resume stopped
  | exit serves free =>
    rw [Kernel.exitThread_of_dead hl]
    exact .exit
  | @waited caller target options _ _ _ _ can wait =>
    obtain ⟨error, hw⟩ := Kernel.wait_of_dead hl caller target options
    cases wait.symm.trans hw
    exact .refused fun _ => rfl
  | @slept caller target options _ _ _ _ can wait =>
    obtain ⟨error, hw⟩ := Kernel.wait_of_dead hl caller target options
    cases wait.symm.trans hw
  | missed => exact .refused fun _ => rfl
  | got found => cases hl.symm.trans found.live
  | slot handles => exact .slot handles
  | shutdown =>
    rw [Kernel.shutdown_of_dead hl]
    exact .refused fun _ => rfl

theorem performsDown (hl : s.kernel.live = false) (move : Move) :
    s.PerformsDown move (s.act move) :=
  (s.performs move).down hl

end Session

end Lifecycle
