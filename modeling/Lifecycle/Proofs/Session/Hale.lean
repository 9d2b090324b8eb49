import Lifecycle.Proofs.Session.Leaving
import Lifecycle.Proofs.Session.Stranding

/-! Any moves, permitted or not, leave a session hale as long as it is live and no check fails:
each block counts no more references than there are holders, zombies have no children, and every
process that runs has its sleeper exactly if somebody waits for it. -/

namespace Lifecycle.Session

/-- A hale session in which a move has been made and nobody has been woken. -/
structure Astir (s : Session) : Prop where
  kernel : s.kernel.Hale (s.account [])
  sleepers : ∀ b, (s.kernel.block b).state = .running →
    s.sleepers b = if (s.kernel.block b).waiter = true then 1 else 0
  apart : ∀ f ∈ s.frames, f.pending.Apart

variable {s s' : Session}

/-! ### Waking -/

/-- Those who sleep on processes that run no more give their references back. -/
theorem leads_foldl_wakeOne (ws : List ParkedWait) (out : List Woken) {t : Session} {a : Account}
    (h : t.kernel.Hale (a.oweAll (ws.map (·.block))))
    (hs : ∀ w ∈ ws, (t.kernel.block w.block).state ≠ .running) :
    t.kernel.LeadsTo (ws.foldl wakeOne (out, t)).2.kernel a := by
  induction ws generalizing out t with
  | nil => exact h.refl
  | cons w ws ih =>
    rw [List.map_cons, Account.oweAll, List.foldl_cons, ← Account.oweAll,
      Account.oweAll_owe] at h
    have hwoken := h.wake (hs w List.mem_cons_self)
    rw [List.foldl_cons, wakeOne]
    exact hwoken.trans (ih _ (t := { t with kernel := (t.kernel.wake w.block).2 }) hwoken.hale
      fun v hv hr => hs v (List.mem_cons_of_mem _ hv) (hwoken.spares _ hr).1)

theorem Astir.settle (h : s.Astir) (hf : s.settle.2.kernel.fault = none) : s.settle.2.Hale := by
  have hk := h.kernel
  rw [account_due s [] (isDue s.kernel)] at hk
  have hleads : s.kernel.LeadsTo s.settle.2.kernel
      (account { s with parked := s.parked.filter (!isDue s.kernel ·) } []) :=
    leads_foldl_wakeOne _ [] (t := { s with parked := s.parked.filter (!isDue s.kernel ·) }) hk
      fun w hw => (isDue_iff ..).1 (List.mem_filter.1 hw).2
  have hsettled := settled_settle s
  obtain ⟨k', hk'⟩ := settle_eq s
  have hcore : ∀ {b}, (s.kernel.block b).state = .running → (k'.block b).core =
      (s.kernel.block b).core := fun hb => by
    have hsame := core_settle hb
    rwa [hk'] at hsame
  rw [hk'] at hleads hsettled hf ⊢
  refine ⟨hf, hleads.hale, hsettled, fun b => ?_, h.apart⟩
  change Session.sleepers { s with parked := s.parked.filter (!isDue s.kernel ·) } b =
    if (k'.block b).state = .running ∧ (k'.block b).waiter = true then 1 else 0
  by_cases hb : (s.kernel.block b).state = .running
  · have hrunning : (k'.block b).state = .running := by
      rw [Block.state_eq_running_iff, Block.reaped_of_core (hcore hb),
        Block.exited_of_core (hcore hb)]
      exact (Block.state_eq_running_iff _).1 hb
    rw [sleepers_filter hb, h.sleepers b hb, Block.waiter_of_core (hcore hb)]
    simp only [hrunning, true_and]
  · rw [sleepers_filter_of_stopped hb, if_neg fun hc => hb (hleads.spares b hc.1).1]

/-! ### Moves -/

/-- Nobody falls asleep, and the stopped forks are as they were. -/
theorem Hale.astir (h : s.Hale) (hl : s.kernel.LeadsTo s'.kernel (s'.account []))
    (hp : s'.parked = s.parked) (hd : ∀ f ∈ s'.frames, f.pending.Apart) : s'.Astir := by
  refine ⟨hl.hale, fun b hb => ?_, hd⟩
  obtain ⟨hrunning, hw⟩ := hl.spares b hb
  have hsame : s'.sleepers b = s.sleepers b := by
    unfold sleepers
    rw [hp]
  rw [hsame, h.watched b, hw]
  simp only [hrunning, true_and]

theorem Hale.still (h : s.Hale) : s.Astir := h.astir h.kernel.refl rfl h.apart

theorem leads_discard {content : Option Slot}
    (h : s.kernel.Hale ((s.account []).oweSlot content)) :
    s.kernel.LeadsTo (s.discard content).kernel ((s.discard content).account []) := by
  rcases content with _ | b | b
  · exact h.refl
  · exact h.release
  · exact h.refl

/-- A slot takes a reference over, and what it held is dropped. -/
theorem leads_store (i : Nat) (content : Slot)
    (h : s.kernel.Hale ((s.account []).oweSlot (some content))) :
    s.kernel.LeadsTo (s.store i content).kernel ((s.store i content).account []) := by
  have hcomm : ((s.account []).oweSlot (some content)) =
      (account { s with slots := s.slots.insert i content } []).oweSlot (s.slots.get? i) := by
    rw [account_insert, account_slot s [] i]
    rcases s.slots.get? i with _ | b | b <;> cases content <;>
      first | rfl | exact Account.owe_comm ..
  exact leads_discard (s := { s with slots := s.slots.insert i content }) (hcomm ▸ h)

/-- A fork or creation that has been begun or gone on stops again or is over. -/
theorem leads_proceed (purpose : Purpose) (progress : Progress)
    (h : s.kernel.Hale (progress.load (s.account []))) :
    s.kernel.LeadsTo (s.proceed purpose progress).2.kernel
      ((s.proceed purpose progress).2.account []) := by
  cases progress with
  | stopped next =>
    have hnext : s.kernel.Hale (account { s with frames := ⟨next, purpose⟩ :: s.frames } []) := by
      rw [account_frames_cons]
      exact h
    exact hnext.refl
  | created b =>
    cases purpose with
    | fork via context => exact Kernel.Hale.refl h
    | create slot => exact leads_store slot (.bare b) h
  | forked child thread => cases purpose <;> exact Kernel.Hale.refl h
  | failed error => cases purpose <;> exact Kernel.Hale.refl h

theorem Hale.astir_proceed {t : Session} (h : s.Hale) (purpose : Purpose)
    {progress : Progress} {k' : Kernel} (hp : s.kernel.Proceeds (t.account []) (progress, k'))
    (hk : t.kernel = k') (hparked : t.parked = s.parked)
    (hd : ∀ f ∈ t.frames, f.pending.Apart) : (t.proceed purpose progress).2.Astir := by
  subst hk
  refine h.astir (hp.leads.trans (leads_proceed purpose progress hp.leads.hale))
    ((parked_proceed ..).trans hparked) fun f hf => ?_
  rw [frames_proceed] at hf
  split at hf
  · rcases List.mem_cons.1 hf with rfl | hf
    · exact hp.apart _ rfl
    · exact hd f hf
  · exact hd f hf

theorem Hale.resume (h : s.Hale) (hs : s.Firm) {f : Frame} {fs : List Frame}
    (hframes : s.frames = f :: fs) (refusal : Option Errno) :
    (proceed { s with kernel := (s.kernel.resume f.pending refusal).2, frames := fs } f.purpose
      (s.kernel.resume f.pending refusal).1).2.Astir := by
  have hk := h.kernel
  have haccount : s.account [] = f.pending.load (account { s with frames := fs } []) := by
    rw [← account_frames_cons, ← hframes]
  rw [haccount] at hk
  have hmem : f ∈ s.frames := hframes ▸ List.mem_cons_self
  have hresumed := hk.resume (hs.frames f hmem) (h.apart f hmem) refusal
  exact h.astir_proceed f.purpose hresumed rfl rfl fun g hg =>
    h.apart g (hframes ▸ List.mem_cons_of_mem _ hg)

/-- A wait that sleeps is the one sleeper on its block. -/
theorem Hale.park (h : s.Hale) {w : ParkedWait} {k' : Kernel}
    (hw : s.kernel.Waits (s.account []) (.asleep w.block, k')) (n : Nat) :
    Astir { s with kernel := k', parked := s.parked ++ [w], nextWait := n } := by
  cases hw with
  | asleep hale lt running waiter quiet =>
    have hstate := Kernel.view_update (k := s.kernel) (b := w.block) (f := .committed)
      (g := Block.state) rfl
    have haccount := s.account_park [] w n
    refine ⟨haccount.symm ▸ hale, fun x hx => ?_, h.apart⟩
    dsimp only at hx ⊢
    rw [quiet.state, hstate] at hx
    have hsleepers := h.watched x
    simp only [hx, true_and] at hsleepers
    unfold sleepers at hsleepers ⊢
    rw [quiet.waiter, Kernel.block_update, List.countP_append, List.countP_singleton, hsleepers]
    by_cases hxb : x = w.block
    · subst hxb
      simp [lt, waiter, Block.committed]
    · simp [hxb, Ne.symm hxb]

theorem Hale.waits (h : s.Hale) {caller : Pid} {target : Int64} {options : Int32} {via : Via}
    {destination : Option RawStatus} {out : Reply × Session}
    (hp : s.Performs (.wait caller target options via destination) out) : out.2.Astir := by
  have hw := h.kernel.wait caller target options
  cases hp with
  | declined => exact h.still
  | waited _ wait =>
    rw [wait] at hw
    cases hw with
    | done leads => exact h.astir leads rfl h.apart
  | @slept _ _ _ _ _ b _ _ wait =>
    rw [wait] at hw
    exact h.park (w := ⟨s.nextWait, b, caller, via, s.contexts.get? caller, destination⟩) hw _
  | slot handles => cases handles

/-- What is given back through a slot was on the account of its holder. -/
theorem Hale.handled (h : s.Hale) {move : Move} {out : Reply × Session}
    (hh : s.Handles move out) : out.2.Astir := by
  have hl : s.kernel.LeadsTo out.2.kernel (out.2.account []) := by
    have hk := h.kernel
    cases hh with
    | @shared _ target b =>
      have hretained : s.kernel.LeadsTo (s.kernel.retain b) ((s.account []).owe b) := by
        rw [Kernel.retain_eq]
        split
        · exact (hk.owe b).alike (.halt ..) fun _ => rfl
        · next hz => exact hk.retained hz
      exact hretained.trans (leads_store (s := { s with kernel := _ }) target (.ref b)
        hretained.hale)
    | @copied _ target b => exact leads_store target (.bare b) hk
    | @released slot content held =>
      rw [account_slot s [] slot, held] at hk
      cases content with
      | ref b => exact hk.release
      | bare b => exact (hk.owe b).release
    | @dropped slot content held =>
      rw [account_slot s [] slot, held] at hk
      exact leads_discard (s := s.vacate slot) hk
    | @overReleased slot content => exact (hk.owe content.block).release
  exact h.astir hl hh.parked (hh.frames ▸ h.apart)

theorem Hale.act (h : s.Hale) (hs : s.Firm) {move : Move}
    (hm : ∀ pid status, move ≠ .exit pid status) (hl : (s.act move).2.kernel.live = true) :
    (s.act move).2.Astir := by
  have hk := h.kernel
  have hp := s.performs move
  generalize s.act move = out at hp hl ⊢
  cases hp with
  | declined => exact h.still
  | fork => exact h.astir_proceed _ (hk.beginFork _) rfl rfl h.apart
  | create => exact h.astir_proceed _ (hk.beginCreate _) rfl rfl h.apart
  | resume stopped => exact h.resume hs stopped _
  | exit => exact absurd rfl (hm _ _)
  | waited can wait => exact h.waits (.waited can wait)
  | slept can wait => exact h.waits (.slept can wait)
  | missed => exact h.still
  | @got pid slot b found =>
    have hheld := hk.retained found.counted
    exact h.astir (hheld.trans (leads_store (s := { s with kernel := _ }) slot (.ref b)
      hheld.hale)) (parked_store ..) (by rw [frames_store]; exact h.apart)
  | slot handles => exact h.handled handles
  | shutdown => exact absurd hl (by simp [h.intact.shutdown.down.live])

/-! ### Exits -/

/-- A process leaves, if it has a context that nothing keeps in use. -/
theorem exit_cases (s : Session) (pid : Pid) (status : ExitStatus) :
    (s.act (.exit pid status)).2 = s ∨ (s.step (.exit pid status)).2 = s.leave pid status := by
  refine (s.exit_eq pid status).imp_right fun ⟨_, hleft⟩ => ?_
  change (s.act (.exit pid status)).2.settle = s.leave pid status
  rw [hleft]
  rfl

/-- A context that no process is found for is used up all the same. -/
theorem Hale.without_context (h : s.Hale) (contexts : Assoc Pid Nat) :
    Hale { s with contexts := contexts } :=
  ⟨h.fault, h.kernel, h.settled, h.watched, h.apart⟩

theorem Hale.step_exit (h : s.Hale) (pid : Pid) (status : ExitStatus)
    (hf : (s.step (.exit pid status)).2.2.kernel.fault = none) :
    (s.step (.exit pid status)).2.2.Hale := by
  rcases s.exit_cases pid status with hsame | hleft
  · unfold Session.step at hf ⊢
    dsimp only at hf ⊢
    rw [hsame] at hf ⊢
    exact h.still.settle hf
  · rw [hleft] at hf ⊢
    cases hl : s.kernel.pids.lookup pid with
    | none =>
      have hsame : (s.kernel.exitThread pid status).2 = s.kernel := by
        have he := s.kernel.leavesThread pid status
        generalize s.kernel.exitThread pid status = out at he ⊢
        cases he with
        | missed => rfl
        | left found => cases hl.symm.trans found.installed
      unfold Session.leave at hf ⊢
      rw [hsame] at hf ⊢
      exact (h.without_context _).still.settle hf
    | some b =>
      -- it runs, or else a check would have failed
      have hexit : (s.kernel.exit pid status.encode).2.fault = none := by
        have hbefore := settle_of (P := fun k => k.fault = none →
          (s.kernel.exitThread pid status).2.fault = none) (s := { s with
            kernel := (s.kernel.exitThread pid status).2
            contexts := s.contexts.erase pid }) (fun b hk hf => hk (Kernel.fault_of_wake hf)) id hf
        rwa [Kernel.exitThread_of_found (h.intact.found hl)] at hbefore
      obtain ⟨hp, hexiting⟩ := h.intact.exits_of_fault hl hexit
      have hexited := (h.kernel.even b).symm.trans hexiting
      refine h.leave hl hp ((Block.state_eq_running_iff _).2 ⟨?_, hexited⟩) status
      exact Bool.eq_false_iff.2 fun hr =>
        Bool.false_ne_true (hexited.symm.trans (h.kernel.tidy.reaped b hr))

/-! ### Runs -/

theorem Hale.step (h : s.Hale) (hs : s.Firm) (move : Move)
    (hf : (s.step move).2.2.kernel.fault = none) (hl : (s.step move).2.2.kernel.live = true) :
    (s.step move).2.2.Hale := by
  by_cases hm : ∃ pid status, move = .exit pid status
  · obtain ⟨pid, status, rfl⟩ := hm
    exact h.step_exit pid status hf
  · have hother : ∀ pid status, move ≠ .exit pid status := fun pid status he =>
      hm ⟨pid, status, he⟩
    have hlive : (s.act move).2.kernel.live = true := (live_settle _).symm.trans hl
    exact (h.act hs hother hlive).settle hf

theorem hale_run (hs : s.Firm) (hd : s.Settled)
    (h : s.kernel.fault = none → s.kernel.live = true → s.Hale) (moves : List Move)
    (hf : (s.run moves).kernel.fault = none) (hl : (s.run moves).kernel.live = true) :
    (s.run moves).Hale := by
  induction moves generalizing s with
  | nil => exact h hf hl
  | cons move moves ih =>
    rw [run_cons] at hf hl ⊢
    cases hfault : s.kernel.fault with
    | some fault =>
      rw [hfault] at hf hl
      exact ih hs hd h hf hl
    | none =>
      rw [hfault] at hf hl
      refine ih (hs.step hfault move) (settled_step s move) (fun hf' hl' => ?_) hf hl
      have hlive : s.kernel.live = true := by
        cases hlive : s.kernel.live with
        | true => rfl
        | false => exact (lapse_act hlive move).live.symm.trans ((live_settle _).symm.trans hl')
      exact (h hfault hlive).step hs move hf' hl'

theorem hale_boot {config : Config} {refusal : Option Errno} (hb : boot config refusal = .ok s) :
    s.Hale := by
  obtain ⟨k, hk, rfl⟩ := boot_eq hb
  refine ⟨(Kernel.alone_boot hk).fault, Kernel.hale_boot hk, (firm_boot hb).2, fun b => ?_,
    fun f hf => absurd hf List.not_mem_nil⟩
  rw [if_neg]
  · rfl
  · rw [(size_boot hb).2 b]
    exact fun hc => Bool.false_ne_true hc.2

end Lifecycle.Session
