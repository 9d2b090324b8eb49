import Lifecycle.Proofs.Session.Invariant

/-! What a move does before any sleeper is woken. Each move has one of the effects
listed here on the blocks, tells the events of that effect and keeps the session
sound. -/

namespace Lifecycle.Session

/-- The effects of a move on the table, with the events that they are told by. -/
inductive Effect (s : Session) (h : List Event) : Move → List Event → Kernel → Prop
  | quiet {move k'} (quiet : s.kernel.Quiet k') : Effect s h move [] k'
  | surrendered {slot b k'} (free : forkerOf h b = none) (quiet : s.kernel.Quiet k') :
      Effect s h (.release slot) [.surrendered b] k'
  | made {refusal pid name task k'} {k : Kernel}
      (blocks : k.blocks = s.kernel.blocks.add (.fresh pid name task)) (quiet : k.Quiet k') :
      Effect s h (.resume refusal) [] k'
  | born {refusal parent pid name task k'}
      (blocks : k'.blocks = s.kernel.blocks.add (.fresh pid name task)) :
      Effect s h (.resume refusal) [.born s.kernel.blocks.size parent] k'
  | linked {refusal parent child k'} (half : child ∈ s.halfForked)
      (forker : forkerOf h child = some parent) (running : (s.kernel.block parent).exiting = false)
      (held : k'.pids.lookup (k'.block parent).pid = some parent)
      (quiet : (s.kernel.update child (·.adopt (s.kernel.block parent).pid)).Quiet k') :
      Effect s h (.resume refusal) [] k'
  | unwound {refusal parent child k'} (flight : child ∈ s.inFlight)
      (forker : forkerOf h child = some parent) (running : (s.kernel.block child).exiting = false)
      (quiet : (s.kernel.update child Block.unwound).Quiet k') :
      Effect s h (.resume refusal) [] k'
  | left {pid status b q k'} (found : s.kernel.pids.lookup pid = some b)
      (forker : forkerOf h b = some q) (running : (s.kernel.block b).exiting = false)
      (landed : b ∉ s.inFlight) (size : k'.blocks.size = s.kernel.blocks.size)
      (core : ∀ x, (k'.block x).core = (s.kernel.departure b status.encode x).core) :
      Effect s h (.exit pid status)
        ((s.heirs pid k').map .inherited ++ [.exited b status (s.kernel.exitPath b)]) k'
  | slept {caller target options via destination pid b k'}
      (named : s.kernel.targetPid? target = some pid) (found : s.kernel.pids.lookup pid = some b)
      (parent : (s.kernel.block b).parent = some caller)
      (waiter : (s.kernel.block b).waiter = false) (reaped : (s.kernel.block b).reaped = false)
      (exited : (s.kernel.block b).exited = false)
      (quiet : (s.kernel.update b Block.committed).Quiet k') :
      Effect s h (.wait caller target options via destination) [.committed b caller] k'
  | collected {caller target options via destination pid b k'}
      (named : s.kernel.targetPid? target = some pid) (found : s.kernel.pids.lookup pid = some b)
      (parent : (s.kernel.block b).parent = some caller)
      (waiter : (s.kernel.block b).waiter = false) (reaped : (s.kernel.block b).reaped = false)
      (exited : (s.kernel.block b).exited = true)
      (quiet : (s.kernel.update b fun x => x.committed.collected).Quiet k') :
      Effect s h (.wait caller target options via destination)
        [.committed b caller, .collected b caller pid (s.kernel.block b).code] k'

/-- A move has an effect and keeps the session sound. -/
structure Acts (s : Session) (h : List Event) (move : Move) (out : Reply × Session) : Prop where
  effect : s.Effect h move (s.actEvents move out.1 out.2.kernel) out.2.kernel
  sound : out.2.Sound (h ++ s.actEvents move out.1 out.2.kernel)

variable {s : Session} {h : List Event}

theorem Sound.forker_lt (hs : s.Sound h) {b q : BlockId} (hb : forkerOf h b = some q) :
    b < s.kernel.blocks.size :=
  (hs.kernel.kindred.born hb).2

theorem Acts.of_events {move : Move} {out : Reply × Session} (es : List Event)
    (he : s.actEvents move out.1 out.2.kernel = es) (heffect : s.Effect h move es out.2.kernel)
    (hsound : out.2.Sound (h ++ es)) : s.Acts h move out := by
  subst he
  exact ⟨heffect, hsound⟩

/-- A move that tells nothing. -/
theorem Acts.of_silent {move : Move} {out : Reply × Session}
    (he : s.actEvents move out.1 out.2.kernel = []) (heffect : s.Effect h move [] out.2.kernel)
    (hsound : out.2.Sound h) : s.Acts h move out :=
  .of_events [] he heffect (by rwa [List.append_nil])

/-- Plain events leave the account as it is. -/
theorem Sound.append_plain (hs : s.Sound h) {es : List Event}
    (he : ∀ e ∈ es, e.plain = true) : s.Sound (h ++ es) :=
  ⟨by rw [account_append_plain s h he]; exact hs.kernel,
    hs.ready.append es fun _ => forkerOf_of_plain he _⟩

theorem Sound.quiet (hs : s.Sound h) {k' : Kernel} (hq : s.kernel.Quiet k')
    (hk : k'.Sound (s.account h)) : Sound { s with kernel := k' } h :=
  ⟨hk, hs.ready.persist_all hs.forker_lt (hq.persists _)⟩

/-! ### Slots -/

/-- Dropping what a slot held. -/
theorem discard_spec {content : Option Slot}
    (hk : s.kernel.Sound ((s.account h).oweSlot content)) (r : s.Ready h)
    (hborn : ∀ {b q}, forkerOf h b = some q → b < s.kernel.blocks.size) :
    (s.discard content).Sound h ∧ s.kernel.Quiet (s.discard content).kernel := by
  rcases content with _ | b | b
  · exact ⟨⟨hk, r⟩, .refl _⟩
  · have hq := Kernel.quiet_release s.kernel b
    exact ⟨⟨hk.release, r.persist_all hborn (hq.persists _)⟩, hq⟩
  · exact ⟨⟨hk, r⟩, .refl _⟩

/-- Filling a slot drops what it held. -/
theorem store_spec (content : Slot) (i : Nat)
    (hk : s.kernel.Sound ((s.account h).oweSlot (some content))) (r : s.Ready h)
    (hborn : ∀ {b q}, forkerOf h b = some q → b < s.kernel.blocks.size)
    (hc : ∀ b, content = .bare b → b < s.kernel.blocks.size ∧ b ≠ Kernel.root ∧
      forkerOf h b = none) :
    (s.store i content).Sound h ∧ s.kernel.Quiet (s.store i content).kernel := by
  have hcomm : ((s.account h).oweSlot (some content)) =
      (account { s with slots := s.slots.insert i content } h).oweSlot (s.slots.get? i) := by
    rw [account_insert, account_slot s h i]
    rcases s.slots.get? i with _ | b | b <;> cases content <;>
      first | rfl | exact Account.owe_comm ..
  exact discard_spec (s := { s with slots := s.slots.insert i content }) (hcomm ▸ hk)
    (r.fill i hc) hborn

theorem Sound.act_get (hs : s.Sound h) (pid : Pid) (slot : Nat) :
    s.Acts h (.get pid slot) (s.act (.get pid slot)) := by
  have hl := s.kernel.looks pid
  unfold act
  dsimp only
  generalize s.kernel.get pid = out at hl ⊢
  cases hl with
  | missed => exact .of_silent rfl (.quiet (.refl _)) hs
  | @found b found =>
    have hq : s.kernel.Quiet (s.kernel.update b .retained) := .of_update b _ fun _ => rfl
    have hk := hs.kernel.retained found.installed
    have r := hs.ready.persist_all hs.forker_lt (hq.persists _)
    obtain ⟨hsound, hquiet⟩ := store_spec (s := { s with kernel := s.kernel.update b .retained })
      (.ref b) slot hk r (fun hb => by
        change _ < (s.kernel.update b .retained).blocks.size
        rw [hq.size]
        exact hs.forker_lt hb) (fun c hc => by cases hc)
    exact .of_silent rfl (.quiet (hq.trans hquiet)) hsound

/-- The block in a slot is installed if the slot has a reference on it. -/
theorem Sound.lookup_of_slot (hs : s.Sound h) {i : Nat} {b : BlockId}
    (hi : s.slots.get? i = some (.ref b)) :
    s.kernel.pids.lookup (s.kernel.block b).pid = some b := by
  apply hs.kernel.lookup_of_owed
  rw [account_slot s h i, hi, Account.owed_oweSlot, Slot.weight, if_pos rfl]
  exact Nat.succ_ne_zero _

theorem Sound.act_clone (hs : s.Sound h) (slot target : Nat) :
    s.Acts h (.clone slot target) (s.act (.clone slot target)) := by
  cases hi : s.slots.get? slot with
  | none =>
    simp only [act, withSlot, hi]
    exact .of_silent rfl (.quiet (.refl _)) hs
  | some content =>
    cases content with
    | ref b =>
      have hl := hs.lookup_of_slot hi
      have hq : s.kernel.Quiet (s.kernel.update b .retained) := .of_update b _ fun _ => rfl
      have hr : s.kernel.retain b = s.kernel.update b .retained := by
        rw [Kernel.retain_eq]
        exact if_neg (hs.kernel.counted.counted hl)
      have r := (hs.ready.persist_all hs.forker_lt (hq.persists _))
      obtain ⟨hsound, hquiet⟩ := store_spec (s := { s with kernel := s.kernel.update b .retained })
        (.ref b) target (hs.kernel.retained hl) r (fun hb => by
          change _ < (s.kernel.update b .retained).blocks.size
          rw [hq.size]
          exact hs.forker_lt hb) (fun c hc => by cases hc)
      simp only [act, withSlot, hi, hr]
      exact .of_silent rfl (.quiet (hq.trans hquiet)) hsound
    | bare b =>
      obtain ⟨hsound, hquiet⟩ := store_spec (.bare b) target hs.kernel hs.ready
        hs.forker_lt (fun c hc => Slot.bare.inj hc ▸ hs.ready.bare hi)
      simp only [act, withSlot, hi]
      exact .of_silent rfl (.quiet hquiet) hsound

theorem Sound.vacate_ref (hs : s.Sound h) {i : Nat} {b : BlockId}
    (hi : s.slots.get? i = some (.ref b)) :
    (s.vacate i).kernel.Sound (((s.vacate i).account h).oweSlot (some (.ref b))) := by
  rw [← hi, ← account_slot]
  exact hs.kernel

theorem Sound.act_release (hs : s.Sound h) (slot : Nat)
    (hp : Move.permitted s h (.release slot) = true) :
    s.Acts h (.release slot) (s.act (.release slot)) := by
  cases hi : s.slots.get? slot with
  | none =>
    simp only [act, withSlot, hi]
    exact .of_silent rfl (.quiet (.refl _)) hs
  | some content =>
    cases content with
    | ref b =>
      obtain ⟨hsound, hquiet⟩ := discard_spec (s := s.vacate slot) (hs.vacate_ref hi)
        (hs.ready.vacate slot) hs.forker_lt
      simp only [act, withSlot, hi]
      exact .of_silent (by simp only [actEvents, hi]) (.quiet hquiet) hsound
    | bare b =>
      obtain ⟨hlt, hroot, hf⟩ := hs.ready.bare hi
      have hg : h.contains (.surrendered b) = false := by
        simpa only [Move.permitted, hi, Bool.not_eq_true'] using hp
      have ha : (s.vacate slot).account h = s.account h := by rw [account_slot s h slot, hi]; rfl
      have hk : s.kernel.Sound ((s.vacate slot).account h) := ha ▸ hs.kernel
      have hrelease := (hk.give hlt hroot hf hg).release
      rw [← account_surrendered] at hrelease
      have hq := Kernel.quiet_release s.kernel b
      have r := (hs.ready.vacate slot).append [.surrendered b] fun _ => rfl
      have hborn : ∀ {c q}, forkerOf (h ++ [.surrendered b]) c = some q →
          c < s.kernel.blocks.size := fun {c q} hc => by
        rw [forkerOf_append, show forkerOf [.surrendered b] c = none from rfl,
          Option.or_none] at hc
        exact hs.forker_lt hc
      simp only [act, withSlot, hi, Slot.block]
      exact .of_events [.surrendered b] (by simp only [actEvents, hi])
        (.surrendered hf hq) ⟨hrelease, r.persist_all hborn (hq.persists _)⟩

theorem Sound.act_drop (hs : s.Sound h) (slot : Nat) :
    s.Acts h (.drop slot) (s.act (.drop slot)) := by
  cases hi : s.slots.get? slot with
  | none =>
    simp only [act, withSlot, hi]
    exact .of_silent rfl (.quiet (.refl _)) hs
  | some content =>
    have hk : (s.vacate slot).kernel.Sound (((s.vacate slot).account h).oweSlot (some content)) := by
      rw [← hi, ← account_slot]
      exact hs.kernel
    obtain ⟨hsound, hquiet⟩ := discard_spec (s := s.vacate slot) hk (hs.ready.vacate slot)
      hs.forker_lt
    simp only [act, withSlot, hi]
    exact .of_silent rfl (.quiet hquiet) hsound

/-! ### Waits -/

theorem target?_eq {target : Int64} {pid : Pid} {b : BlockId}
    (ht : s.kernel.targetPid? target = some pid) (hl : s.kernel.pids.lookup pid = some b) :
    s.target? target = some b := by
  rw [target?, ht, Option.bind_some, hl]

theorem Sound.act_wait (hs : s.Sound h) (caller : Pid) (target : Int64) (options : Int32)
    (via : Via) (destination : Option RawStatus) :
    s.Acts h (.wait caller target options via destination)
      (s.act (.wait caller target options via destination)) := by
  have hw := hs.kernel.wait caller target options
  simp only [act, wait]
  split
  · exact .of_silent rfl (.quiet (.refl _)) hs
  · generalize s.kernel.wait caller target options = out at hw
    obtain ⟨outcome, k'⟩ := out
    dsimp only at hw ⊢
    cases hw with
    | refused quiet sound =>
      exact .of_silent rfl (.quiet quiet) (hs.quiet quiet sound)
    | collected named found parent waiter reaped exited quiet sound =>
      have hp := Kernel.Persists.of_update_exiting quiet rfl rfl
      refine .of_events _ ?_ (.collected named found parent waiter reaped exited quiet)
        (Sound.append_plain ⟨sound, hs.ready.persist_all hs.forker_lt hp⟩ ?_)
      · simp only [actEvents, target?_eq named found]
      · simp [Event.plain]
    | @slept _ b _ named found parent waiter reaped exited quiet sound =>
      have hp := Kernel.Persists.of_update_exiting quiet rfl rfl
      have r := (hs.ready.persist_all hs.forker_lt hp).append
        [.committed b caller] fun _ => rfl
      refine .of_events _ ?_ (.slept named found parent waiter reaped exited quiet)
        ⟨?_, r.park (List.mem_append_right _ (List.mem_singleton.2 rfl)) rfl⟩
      · simp only [actEvents, target?_eq named found, Option.map_some, Option.toList_some]
      · rw [account_append_plain _ h (by simp [Event.plain])]
        have ha : _ = (s.account h).owe b := account_park s h
          ⟨s.nextWait, b, caller, via, s.contexts.get? caller, destination⟩ (s.nextWait + 1)
        rw [← ha] at sound
        exact sound

/-! ### Exits -/

/-- A context serves the process that its pid finds. -/
theorem Sound.lookup_of_serves (hs : s.Sound h) {pid : Pid} {b : BlockId}
    (hb : s.Serves h pid b) : s.kernel.pids.lookup pid = some b := by
  obtain ⟨rfl, ⟨q, hq⟩, he, _⟩ := hb
  exact hs.kernel.lookup_of_forker hq (hs.kernel.reaped_of_not_exiting he)

/-- A context goes before its process does. -/
theorem Sound.depart (hs : s.Sound h) {pid : Pid} {b : BlockId} {k' : Kernel}
    {status : RawStatus} (hb : s.Serves h pid b)
    (size : k'.blocks.size = s.kernel.blocks.size)
    (core : ∀ x, (k'.block x).core = (s.kernel.departure b status x).core) :
    Ready { s with kernel := k', contexts := s.contexts.erase pid } h := by
  have hp : s.kernel.Persists k' (· = b) := by
    refine ⟨Nat.le_of_eq size.symm, fun x _ => ?_, fun x _ hx => ?_⟩
    · rw [Block.pid_of_core (core x), Kernel.departure_pid]
    · rw [Block.exiting_of_core (core x), Kernel.departure_exiting_of_ne hx]
  refine (hs.ready.leave pid).persist hs.forker_lt hp (fun c hc hcb => hb.2.2.2 (hcb ▸ hc)) ?_
  intro p m hm
  change (s.contexts.erase pid).get? p = some m at hm
  rw [Assoc.get?_erase] at hm
  split at hm
  · cases hm
  · next hne =>
    obtain ⟨c, hc⟩ := hs.ready.contexts hm
    exact ⟨c, hc, fun hcb => hne (by rw [← hc.1, ← hb.1, hcb])⟩

theorem Sound.act_exit (hs : s.Sound h) (pid : Pid) (status : ExitStatus) :
    s.Acts h (.exit pid status) (s.act (.exit pid status)) := by
  simp only [act, exit]
  split
  · exact .of_silent rfl (.quiet (.refl _)) hs
  · next hn =>
    split
    · exact .of_silent rfl (.quiet (.refl _)) hs
    · obtain ⟨b, hb⟩ := hs.ready.contexts hn
      have hl := hs.lookup_of_serves hb
      obtain ⟨q, hq⟩ := hb.2.1
      have hh : b ∉ s.halfForked := fun hm => hb.2.2.2 (inFlight_of_halfForked hm)
      obtain ⟨k', hk, sound, size, core⟩ := hs.kernel.exitThread rfl hl hq hh hb.2.2.1 status
      simp only [hk]
      refine .of_events _ ?_ (.left hl hq hb.2.2.1 hb.2.2.2 size core)
        (Sound.append_plain ⟨sound, hs.depart hb size core⟩ plain_of_left)
      simp only [actEvents, hl, Option.map_some, Option.toList_some]

/-! ### Forks and creations -/

/-- A fork or creation that stops for the first time. -/
theorem Sound.stop (hs : s.Sound h) {k' : Kernel} (pending : Pending)
    (hq : s.kernel.Quiet k') (hk : k'.Sound (pending.load (s.account h)))
    (hc : pending.child? = none) (purpose : Purpose) :
    Sound { s with kernel := k', frames := ⟨pending, purpose⟩ :: s.frames } h := by
  have hfit : pending.Fits k' (s.account h) := by
    cases pending <;> trivial
  have ha := account_frames_cons s h ⟨pending, purpose⟩ s.frames
  exact ⟨ha ▸ hk, (hs.ready.persist_all hs.forker_lt (hq.persists _)).push hfit hc⟩

theorem Sound.act_create (hs : s.Sound h) (name : String) (slot : Nat) :
    s.Acts h (.create name slot) (s.act (.create name slot)) := by
  unfold act
  rcases hs.kernel.beginCreate name with ⟨error, hk⟩ | ⟨p, k', hk, hq, sound⟩
  · simp only [hk, proceed]
    exact .of_silent rfl (.quiet (.refl _)) hs
  · simp only [hk, proceed]
    exact .of_silent rfl (.quiet hq) (hs.stop (.create p name) hq sound rfl _)

theorem Sound.act_fork (hs : s.Sound h) (pid : Pid) (via : Via) :
    s.Acts h (.fork pid via) (s.act (.fork pid via)) := by
  unfold act
  dsimp only
  split
  · exact .of_silent rfl (.quiet (.refl _)) hs
  · rcases hs.kernel.beginFork pid with ⟨error, k', hk, hq, sound⟩ | ⟨q, p, k', hk, -, hq, sound⟩
    · simp only [hk, proceed]
      exact .of_silent rfl (.quiet hq) (hs.quiet hq sound)
    · simp only [hk, proceed]
      exact .of_silent rfl (.quiet hq) (hs.stop (.forkTask q p) hq sound rfl _)

section Resume

variable {f : Frame} {fs : List Frame}

/-- The innermost fork has its load on the account of the rest. -/
theorem Sound.load (hs : s.Sound h) (hf : s.frames = f :: fs) :
    s.kernel.Sound (f.pending.load (account { s with frames := fs } h)) := by
  rw [← account_frames_cons, ← hf]
  exact hs.kernel

theorem Sound.fits (hs : s.Sound h) (hf : s.frames = f :: fs) :
    f.pending.Fits s.kernel (account { s with frames := fs } h) := by
  refine (hs.ready.fits f (hf ▸ List.mem_cons_self)).mono (fun hq => hq) (fun c _ hc => ?_)
    fun _ _ hx => hx
  obtain ⟨g, hg, hp⟩ := mem_halfForked.1 hc
  exact mem_halfForked.2 ⟨g, hf ▸ List.mem_cons_of_mem _ hg, hp⟩

/-- Its child is no other fork's. -/
theorem Ready.not_mem_rest (r : s.Ready h) (hf : s.frames = f :: fs) {c : BlockId}
    (hc : f.pending.child? = some c) : c ∉ inFlight { s with frames := fs } := by
  have hn := r.children
  have hcons : inFlight s = c :: inFlight { s with frames := fs } := by
    rw [inFlight, hf]
    exact List.filterMap_cons_some hc
  rw [hcons] at hn
  exact (List.nodup_cons.1 hn).1

/-- A fork that ends in failure, or a creation that does. -/
theorem Sound.act_failed {k' : Kernel} {refusal : Option Errno} (error : ProcessError)
    (purpose : Purpose) (he : s.Effect h (.resume refusal) [] k')
    (hs : Sound { s with kernel := k', frames := fs } h) :
    s.Acts h (.resume refusal)
      (proceed { s with kernel := k', frames := fs } purpose (.failed error)) := by
  cases purpose <;> exact .of_silent rfl he hs

theorem Sound.act_created (hs : s.Sound h) (hf : s.frames = f :: fs) {k' : Kernel}
    {pid : Pid} {name : String} {task : TaskHandle} (purpose : Purpose) (refusal : Option Errno)
    (blocks : k'.blocks = s.kernel.blocks.add (.fresh pid name task))
    (sound : k'.Sound (account { s with frames := fs } h)) :
    s.Acts h (.resume refusal)
      (proceed { s with kernel := k', frames := fs } purpose (.created s.kernel.blocks.size)) := by
  have r := (hs.ready.persist_all hs.forker_lt (.of_add blocks)).pop hf
  cases purpose with
  | fork via context => exact .of_silent rfl (.made blocks (.refl _)) ⟨sound, r⟩
  | create slot =>
    have hsize : k'.blocks.size = s.kernel.blocks.size + 1 := by
      rw [blocks, BlockStore.size_add]
    obtain ⟨hsound, hquiet⟩ := store_spec (s := { s with kernel := k', frames := fs })
      (.bare s.kernel.blocks.size) slot sound r
      (fun hb => Nat.lt_trans (hs.forker_lt hb) (hsize ▸ Nat.lt_succ_self _))
      (fun b hb => by
        obtain rfl := Slot.bare.inj hb
        refine ⟨hsize ▸ Nat.lt_succ_self _, (Nat.ne_of_lt hs.kernel.ordered.root_lt).symm, ?_⟩
        exact Option.eq_none_iff_forall_ne_some.2 fun q hq =>
          Nat.lt_irrefl _ (hs.forker_lt hq))
    exact .of_silent rfl (.made blocks hquiet) hsound

theorem Sound.act_born (hs : s.Sound h) {parent : BlockId} {pid : Pid} {purpose : Purpose}
    (hf : s.frames = ⟨.forkTask parent pid, purpose⟩ :: fs) {k' : Kernel} {name : String}
    {task : TaskHandle} (refusal : Option Errno)
    (blocks : k'.blocks = s.kernel.blocks.add (.fresh pid name task))
    (sound : k'.Sound (((account { s with frames := fs } h).beget s.kernel.blocks.size parent
      |>.owe parent).carry s.kernel.blocks.size)) :
    s.Acts h (.resume refusal) (proceed { s with kernel := k', frames := fs } purpose
      (.stopped (.forkSpace parent s.kernel.blocks.size))) := by
  have hnew : forkerOf h s.kernel.blocks.size = none :=
    Option.eq_none_iff_forall_ne_some.2 fun q hq => Nat.lt_irrefl _ (hs.forker_lt hq)
  have hborn : forkerOf (h ++ [.born s.kernel.blocks.size parent]) s.kernel.blocks.size =
      some parent := by rw [forkerOf_append, hnew, forkerOf_born, if_pos rfl]; rfl
  have hblock : k'.block s.kernel.blocks.size = .fresh pid name task := by
    rw [Kernel.block_of_add blocks, if_pos rfl]
  have r := ((hs.ready.persist_all hs.forker_lt (.of_add blocks)).pop hf).append
    [.born s.kernel.blocks.size parent] fun hi => by
      rw [forkerOf_born, if_neg]
      exact Nat.ne_of_gt (hs.ready.bare hi).1
  refine .of_events [.born s.kernel.blocks.size parent] ?_ (.born blocks) ⟨?_, ?_⟩
  · simp only [proceed, Pending.service, actEvents, hf]
  · rw [← account_born _ _ hnew] at sound
    have ha := account_frames_cons s (h ++ [.born s.kernel.blocks.size parent])
      ⟨.forkSpace parent s.kernel.blocks.size, purpose⟩ fs
    exact ha ▸ sound
  · refine r.bear hborn (fun hm => ?_) fun {p n} hn => ?_
    · obtain ⟨g, hg, hc⟩ := mem_inFlight.1 hm
      obtain ⟨q, hq⟩ := (hs.ready.fits g (hf ▸ List.mem_cons_of_mem _ hg)).forker hc
      exact Nat.lt_irrefl _ (hs.forker_lt hq)
    · change (k'.block s.kernel.blocks.size).pid ≠ p
      rw [hblock]
      change pid ≠ p
      rintro rfl
      obtain ⟨b, hb⟩ := hs.ready.contexts hn
      have hl := hs.lookup_of_serves hb
      rw [(hs.load hf).placed.empty _ List.mem_cons_self] at hl
      cases hl

theorem Sound.act_copied (hs : s.Sound h) {parent child : BlockId} {purpose : Purpose}
    (hf : s.frames = ⟨.forkSpace parent child, purpose⟩ :: fs) {k' : Kernel}
    (refusal : Option Errno) (quiet : s.kernel.Quiet k')
    (sound : k'.Sound (((account { s with frames := fs } h).owe parent).carry child)) :
    s.Acts h (.resume refusal) (proceed { s with kernel := k', frames := fs } purpose
      (.stopped (.forkFiles parent child))) := by
  have ha := account_frames_cons s h ⟨.forkFiles parent child, purpose⟩ fs
  have r := (hs.ready.persist_all hs.forker_lt (quiet.persists _)).swap hf
    (g := ⟨.forkFiles parent child, purpose⟩) (hs.fits hf) rfl fun _ hc => hc
  exact .of_silent rfl (.quiet quiet) ⟨ha ▸ sound, r⟩

theorem Sound.act_linked (hs : s.Sound h) {parent child : BlockId} {purpose : Purpose}
    (hf : s.frames = ⟨.forkFiles parent child, purpose⟩ :: fs) {k' : Kernel}
    (refusal : Option Errno) (running : (s.kernel.block parent).exiting = false)
    (quiet : (s.kernel.update child (·.adopt (s.kernel.block parent).pid)).Quiet k')
    (sound : k'.Sound ((account { s with frames := fs } h).owe parent)) :
    s.Acts h (.resume refusal) (proceed { s with kernel := k', frames := fs } purpose
      (.stopped (.forkThread parent child))) := by
  have ha := account_frames_cons s h ⟨.forkThread parent child, purpose⟩ fs
  have hforker : forkerOf h child = some parent := hs.fits hf
  have hhalf : child ∈ s.halfForked := mem_halfForked.2 ⟨_, hf ▸ List.mem_cons_self, rfl⟩
  have hp := Kernel.Persists.of_update_exiting quiet rfl rfl
  have he : (k'.block child).exiting = false :=
    (hp.exiting child (hs.forker_lt hforker) id).trans (hs.kernel.kindred.half child hhalf).2.2.1
  have r := (hs.ready.persist_all hs.forker_lt hp).swap hf
    (g := ⟨.forkThread parent child, purpose⟩)
    ⟨hforker, fun hm => hs.ready.not_mem_rest hf rfl (inFlight_of_halfForked hm), he⟩ rfl
    fun _ hc => by cases hc
  have held := sound.lookup_of_owed (b := parent) <| by
    rw [Account.owed_owe, if_pos rfl]
    exact Nat.succ_ne_zero _
  exact .of_silent rfl (.linked hhalf hforker running held quiet) ⟨ha ▸ sound, r⟩

theorem Sound.act_started (hs : s.Sound h) {parent child : BlockId} {purpose : Purpose}
    (hf : s.frames = ⟨.forkThread parent child, purpose⟩ :: fs) {k' : Kernel}
    (refusal : Option Errno) (thread : String) (quiet : s.kernel.Quiet k')
    (sound : k'.Sound (account { s with frames := fs } h)) :
    s.Acts h (.resume refusal) (proceed { s with kernel := k', frames := fs } purpose
      (.forked (s.kernel.block child).pid thread)) := by
  have r := (hs.ready.persist_all hs.forker_lt (quiet.persists _)).pop hf
  obtain ⟨hforker, _, he⟩ := hs.fits hf
  cases purpose with
  | create slot => exact .of_silent rfl (.quiet quiet) ⟨sound, r⟩
  | fork via context =>
    exact .of_silent rfl (.quiet quiet) ⟨sound, r.enter (b := child)
      ⟨quiet.pid child, ⟨parent, hforker⟩, (quiet.exiting child).trans he,
        hs.ready.not_mem_rest hf rfl⟩ _ _⟩

theorem Sound.act_unwound (hs : s.Sound h) (hf : s.frames = f :: fs) {k' : Kernel}
    {child : BlockId} (refusal : Option Errno) (error : ProcessError)
    (carried : f.pending.child? = some child)
    (quiet : (s.kernel.update child Block.unwound).Quiet k')
    (sound : k'.Sound (account { s with frames := fs } h)) :
    s.Acts h (.resume refusal)
      (proceed { s with kernel := k', frames := fs } f.purpose (.failed error)) := by
  have hin : child ∈ s.inFlight := mem_inFlight.2 ⟨f, hf ▸ List.mem_cons_self, carried⟩
  obtain ⟨q, hq⟩ := (hs.ready.fits f (hf ▸ List.mem_cons_self)).forker carried
  have he : (s.kernel.block child).exiting = false :=
    (hs.fits hf).child_running (hs.load hf) carried
  have r := (hs.ready.pop hf).persist hs.forker_lt (Kernel.Persists.of_update quiet rfl)
    (fun b hb hbc => hs.ready.not_mem_rest hf carried (hbc ▸ hb)) fun {pid n} hn => by
      obtain ⟨b, hb⟩ := hs.ready.contexts hn
      refine ⟨b, ⟨hb.1, hb.2.1, hb.2.2.1, fun hm => hb.2.2.2 ?_⟩, ?_⟩
      · obtain ⟨g, hg, hc⟩ := mem_inFlight.1 hm
        exact mem_inFlight.2 ⟨g, hf ▸ List.mem_cons_of_mem _ hg, hc⟩
      · rintro rfl
        exact hb.2.2.2 hin
  exact act_failed error f.purpose (.unwound hin hq he quiet) ⟨sound, r⟩

theorem Sound.act_resume (hs : s.Sound h) (refusal : Option Errno) :
    s.Acts h (.resume refusal) (s.act (.resume refusal)) := by
  unfold act
  cases hf : s.frames with
  | nil =>
    dsimp only
    exact .of_silent rfl (.quiet (.refl _)) hs
  | cons f fs =>
    have hw := (hs.load hf).resume rfl (hs.fits hf) refusal
    dsimp only
    generalize s.kernel.resume f.pending refusal = out at hw
    obtain ⟨progress, k'⟩ := out
    obtain ⟨pending, purpose⟩ := f
    dsimp only at hw ⊢
    cases hw with
    | refused childless quiet sound =>
      exact act_failed _ _ (.quiet quiet)
        ⟨sound, (hs.ready.persist_all hs.forker_lt (quiet.persists _)).pop hf⟩
    | created blocks sound => exact hs.act_created hf purpose refusal blocks sound
    | born blocks sound => exact hs.act_born hf refusal blocks sound
    | copied quiet sound => exact hs.act_copied hf refusal quiet sound
    | linked running quiet sound => exact hs.act_linked hf refusal running quiet sound
    | started quiet sound => exact hs.act_started hf refusal _ quiet sound
    | unwound carried quiet sound => exact hs.act_unwound hf refusal _ carried quiet sound

end Resume

/-- A permitted move has one of the effects, and keeps the session sound. -/
theorem Sound.act (hs : s.Sound h) {move : Move} (hp : move.permitted s h = true) :
    s.Acts h move (s.act move) := by
  cases move with
  | fork pid via => exact hs.act_fork pid via
  | create name slot => exact hs.act_create name slot
  | resume refusal => exact hs.act_resume refusal
  | exit pid status => exact hs.act_exit pid status
  | wait caller target options via destination =>
    exact hs.act_wait caller target options via destination
  | get pid slot => exact hs.act_get pid slot
  | clone slot target => exact hs.act_clone slot target
  | release slot => exact hs.act_release slot hp
  | drop slot => exact hs.act_drop slot
  | overRelease slot => cases hp
  | shutdown => cases hp

end Lifecycle.Session
