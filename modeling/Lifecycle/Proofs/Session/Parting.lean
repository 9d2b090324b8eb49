import Lifecycle.Proofs.Kernel.Parting
import Lifecycle.Proofs.Session.Commuting

/-! The exit of a process in a session, from its call to the wake-up of whoever waits for it. -/

namespace Lifecycle.Session

/-- What follows on an exit that has left the table `k'`: the sleeper on the process wakes with
its status and collects it, and nobody else is touched. -/
structure Collects (s : Session) (p : Pid) (b : BlockId) (status : ExitStatus) (k' : Kernel)
    (out : List Woken × Session) : Prop where
  woken : out.1 = (s.parked.filter (·.block == b)).map (·.finish (.ok (p, status.encode)))
  asleep : out.2.parked = s.parked.filter (·.block != b)
  /-- Somebody sleeps on the process exactly if a wait is committed on it. -/
  sleepers : (s.parked.filter (·.block == b)).length =
    if (s.kernel.block b).waiter = true then 1 else 0
  /-- The table's reference goes, and that of the sleeper. -/
  collected : (s.kernel.block b).waiter = true → out.2.kernel.block b =
    { k'.block b with reaped := true }.surrendered.surrendered
  left : (s.kernel.block b).waiter = false → out.2.kernel.entry b = k'.entry b
  others : ∀ x ≠ b, out.2.kernel.entry x = k'.entry x

variable {s : Session} {p : Pid} {b : BlockId}

theorem Hale.collects (h : s.Hale) (hb : s.kernel.pids.lookup p = some b) (hp : p ≠ kernelPid)
    (hr : (s.kernel.block b).state = .running) (status : ExitStatus) :
    s.Collects p b status (s.kernel.exit p status.encode).2 (s.leave p status) := by
  obtain ⟨hwoken, hsession, hdeparts⟩ := h.left hb hp hr status
  obtain ⟨hquits, -⟩ := h.kernel.quits hb hp hr status.encode
  have hentry := hdeparts.loses.entry
  refine ⟨hwoken, ?_, h.sleepers_of_running hr, fun hw => ?_, fun hw => ?_, fun x hx => ?_⟩
  · rw [hsession]
  · rw [← Kernel.block_entry, hentry, if_pos rfl, TableEntry.left, Kernel.block_entry, if_pos hw,
      TableEntry.block_released, TableEntry.block_released, ← hquits.entry_self,
      TableEntry.block_update, Kernel.block_entry]
    rfl
  · rw [hentry, if_pos rfl, TableEntry.left, Kernel.block_entry, if_neg (by simp [hw]),
      hquits.entry_self]
  · rw [hentry, hquits.entry, if_neg hx, if_neg hx]

/-- After any moves, permitted or not, any process of a user's that runs can exit. Its children
are handed on, it is reaped at once or left for whoever waits for it, and nothing else changes. -/
theorem exit_parts {config : Config} {refusal : Option Errno} {moves : List Move}
    (hb : boot config refusal = .ok s) (hf : (s.run moves).kernel.fault = none)
    (hl : (s.run moves).kernel.live = true)
    (hfound : (s.run moves).kernel.pids.lookup p = some b) (hp : p ≠ kernelPid)
    (hr : ((s.run moves).kernel.block b).state = .running) (status : ExitStatus) :
    let t := s.run moves
    ∃ k', t.kernel.exit p status.encode = (some (t.kernel.exitPath b), k') ∧
      t.kernel.Parts p b status.encode k' ∧ t.Collects p b status k' (t.leave p status) ∧
      (t.CanExit p → (t.step (.exit p status)).2 = t.leave p status) := by
  obtain ⟨hfirm, hsettled⟩ := firm_boot hb
  have hs : (s.run moves).Hale := hale_run hfirm hsettled (fun _ _ => hale_boot hb) moves hf hl
  obtain ⟨k', hexit, hparts⟩ := hs.kernel.parts hfound hp hr status.encode
  have hcollects := hs.collects hfound hp hr status
  rw [hexit] at hcollects
  exact ⟨k', hexit, hparts, hcollects, fun hcan => step_of_canExit hcan status⟩

/-- The kernel waits for a process with a child that runs, one that has exited, and one that is
reaped and held. -/
theorem exit_parts_with_children : ∃ s : Session, ∃ moves : List Move, ∃ k',
    boot { maxProcesses := 8 } none = .ok s ∧ (s.run moves).kernel.fault = none ∧
      (s.run moves).kernel.live = true ∧ (s.run moves).kernel.pids.lookup 1 = some 1 ∧
      (s.run moves).kernel.childBlocks 1 = [2, 3, 4] ∧
      [1, 2, 3, 4].map (fun b => ((s.run moves).kernel.block b).state) =
        [.running, .running, .zombie, .reaped] ∧
      (s.run moves).CanExit 1 ∧ ((s.run moves).kernel.block 1).waiter = true ∧
      (s.run moves).kernel.exit 1 (ExitStatus.encode ⟨.exited, 7⟩) = (some .zombie, k') ∧
      (s.run moves).kernel.Parts 1 1 (ExitStatus.encode ⟨.exited, 7⟩) k' ∧
      (s.run moves).Collects 1 1 ⟨.exited, 7⟩ k' ((s.run moves).step (.exit 1 ⟨.exited, 7⟩)).2 := by
  let moves : List Move :=
    [.fork 0 .context, .resume none, .resume none, .resume none, .resume none,
      .fork 1 .context, .resume none, .resume none, .resume none, .resume none,
      .fork 1 .context, .resume none, .resume none, .resume none, .resume none,
      .fork 1 .context, .resume none, .resume none, .resume none, .resume none,
      .get 4 0, .exit 3 ⟨.exited, 0⟩, .exit 4 ⟨.exited, 0⟩, .wait 1 4 0 .context none,
      .wait 0 1 0 .context none]
  obtain ⟨s, hb, hf, hl, hfound, hchildren, hstates, hcontext, hbusy, hwaiter, hpath⟩ :
      ∃ s : Session, boot { maxProcesses := 8 } none = .ok s ∧
        (s.run moves).kernel.fault = none ∧ (s.run moves).kernel.live = true ∧
        (s.run moves).kernel.pids.lookup 1 = some 1 ∧
        (s.run moves).kernel.childBlocks 1 = [2, 3, 4] ∧
        [1, 2, 3, 4].map (fun b => ((s.run moves).kernel.block b).state) =
          [.running, .running, .zombie, .reaped] ∧
        (s.run moves).contexts.get? 1 = some 0 ∧ (s.run moves).isBusy 0 = false ∧
        ((s.run moves).kernel.block 1).waiter = true ∧
        (s.run moves).kernel.exitPath 1 = .zombie :=
    ⟨_, rfl, by decide +kernel⟩
  have hrunning : ((s.run moves).kernel.block 1).state = .running := (List.cons.inj hstates).1
  obtain ⟨k', hexit, hparts, hcollects, hstep⟩ :=
    exit_parts hb hf hl hfound (by decide) hrunning ⟨.exited, 7⟩
  have hcan : (s.run moves).CanExit 1 := ⟨0, hcontext, hbusy⟩
  rw [hpath] at hexit
  rw [← hstep hcan] at hcollects
  exact ⟨s, moves, k', hb, hf, hl, hfound, hchildren, hstates, hcan, hwaiter, hexit, hparts,
    hcollects⟩

end Lifecycle.Session
