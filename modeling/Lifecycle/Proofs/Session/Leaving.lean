import Lifecycle.Proofs.Kernel.Leaving
import Lifecycle.Proofs.Session.Arriving

/-! Processes that leave a session: each exits, whoever calls it to, and the one who waits for it
wakes. What a session is that processes can leave one after the other, and what it comes to. -/

namespace Lifecycle

namespace Session

/-- A process exits with a status, and its context is used up; the waits that wake. -/
def leave (s : Session) (pid : Pid) (status : ExitStatus) : List Woken × Session :=
  settle { s with
    kernel := (s.kernel.exitThread pid status).2
    contexts := s.contexts.erase pid }

/-- A live session in which no check has failed, between two moves. -/
structure Hale (s : Session) : Prop where
  fault : s.kernel.fault = none
  kernel : s.kernel.Hale (s.account [])
  settled : s.Settled
  watched : s.Watched
  apart : ∀ f ∈ s.frames, f.pending.Apart

variable {s : Session} {p : Pid} {b : BlockId} {status : ExitStatus}

theorem Hale.intact (h : s.Hale) : s.kernel.Intact s.taken := h.kernel.intact

/-- The sleepers on a process that leaves are those that are due. -/
theorem Hale.isDue_exitThread (h : s.Hale) (hentry : ∀ x, (s.kernel.exitThread p status).2.entry x =
      if x = b then (s.kernel.entry x).departed status.encode else (s.kernel.entry x).bereft p)
    {w : ParkedWait} (hw : w ∈ s.parked) :
    isDue (s.kernel.exitThread p status).2 w = (w.block == b) := by
  have hrunning : (s.kernel.block w.block).state = .running :=
    Classical.not_not.1 fun hn =>
      Bool.false_ne_true ((h.settled w hw).symm.trans ((isDue_iff ..).2 hn))
  have hblock := congrArg TableEntry.block (hentry w.block)
  rw [Kernel.block_entry] at hblock
  rw [Bool.eq_iff_iff, isDue_iff, beq_iff_eq, hblock]
  by_cases hwb : w.block = b
  · rw [if_pos hwb]
    refine iff_of_true (fun hs => ?_) hwb
    exact Bool.false_ne_true (((Block.state_eq_running_iff _).1 hs).2.symm.trans
      (TableEntry.exited_departed ..))
  · rw [if_neg hwb]
    exact iff_of_false (fun hs => hs ((TableEntry.running_bereft ..).2 (by simpa using hrunning))) hwb

/-- A process has left: it and its children have changed, its sleeper has woken with its status,
and nothing else has changed. -/
structure Left (s : Session) (p : Pid) (b : BlockId) (status : ExitStatus)
    (out : List Woken × Session) : Prop where
  woken : out.1 = (s.parked.filter (·.block == b)).map (·.finish (.ok (p, status.encode)))
  session : out.2 = { s with
    kernel := out.2.kernel
    contexts := s.contexts.erase p
    parked := s.parked.filter (·.block != b) }
  departs : s.kernel.Departs s.taken p b status.encode out.2.kernel

/-- Lists of children of others than the kernel get no new members. -/
theorem Hale.children_leave (h : s.Hale) (p : Pid) (status : ExitStatus) {q : Pid}
    (hq : q ≠ kernelPid) :
    ((s.leave p status).2.kernel.childBlocks q).Sublist (s.kernel.childBlocks q) := by
  have hexit := h.intact.appends_exitThread p status q
  simp only [if_neg hq, List.append_nil] at hexit
  have hsettled := thins_settle (s := { s with
    kernel := (s.kernel.exitThread p status).2
    contexts := s.contexts.erase p }) (h.intact.exitThread p status)
  exact (hsettled.childBlocks q).trans hexit

/-- When a process leaves, its sleepers are finished, and nobody else wakes. -/
theorem Hale.leave_eq (h : s.Hale) (hb : s.kernel.pids.lookup p = some b) (hp : p ≠ kernelPid)
    (hr : (s.kernel.block b).state = .running) (status : ExitStatus) :
    s.leave p status =
      let out := (s.parked.filter (·.block == b)).foldl wakeOne ([], { s with
        kernel := (s.kernel.exitThread p status).2
        contexts := s.contexts.erase p
        parked := s.parked.filter (·.block != b) })
      (out.1.reverse, out.2) := by
  obtain ⟨-, hentry⟩ := h.kernel.entry_exitThread hb hp hr status
  have hdue : ∀ w ∈ s.parked, isDue (s.kernel.exitThread p status).2 w = (w.block == b) :=
    fun w hw => h.isDue_exitThread hentry hw
  have hwoken : s.parked.filter (isDue (s.kernel.exitThread p status).2) =
      s.parked.filter (·.block == b) := List.filter_congr hdue
  have hasleep : s.parked.filter (fun w => !isDue (s.kernel.exitThread p status).2 w) =
      s.parked.filter (·.block != b) := List.filter_congr fun w hw => by rw [hdue w hw]; rfl
  unfold leave Session.settle
  dsimp only
  rw [hwoken, hasleep]

/-- A process that runs has one sleeper if somebody waits for it, and else none. -/
theorem Hale.sleepers_of_running (h : s.Hale) (hr : (s.kernel.block b).state = .running) :
    (s.parked.filter (·.block == b)).length =
      if (s.kernel.block b).waiter = true then 1 else 0 := by
  rw [← List.countP_eq_length_filter]
  refine (h.watched b).trans ?_
  simp only [hr, true_and]

theorem Hale.left (h : s.Hale) (hb : s.kernel.pids.lookup p = some b) (hp : p ≠ kernelPid)
    (hr : (s.kernel.block b).state = .running) (status : ExitStatus) :
    s.Left p b status (s.leave p status) := by
  have hi := h.intact.exitThread p status
  obtain ⟨hbooks, -⟩ := h.kernel.entry_exitThread hb hp hr status
  have hchildren := fun q hq => h.children_leave p status (q := q) hq
  have hsleepers := h.sleepers_of_running hr
  rw [h.leave_eq hb hp hr] at hchildren ⊢
  dsimp only at hchildren ⊢
  cases hw : (s.kernel.block b).waiter with
  | false =>
    rw [hw] at hsleepers
    rw [List.length_eq_zero_iff.1 hsleepers] at hchildren ⊢
    exact ⟨by rw [List.length_eq_zero_iff.1 hsleepers]; rfl, rfl,
      ⟨h.kernel.loses_exitThread hb hp hr hw status, hi, hbooks, hchildren⟩⟩
  | true =>
    rw [hw, if_pos rfl] at hsleepers
    obtain ⟨w, hone⟩ := List.length_eq_one_iff.1 hsleepers
    have hwb : w.block = b := by
      have hmem : w ∈ s.parked.filter (·.block == b) := hone ▸ List.mem_singleton_self w
      simpa using (List.mem_filter.1 hmem).2
    obtain ⟨hresult, hcollected, hloses⟩ := h.kernel.loses_wake hb hp hr hw status
    rw [hone] at hchildren ⊢
    simp only [List.foldl_cons, List.foldl_nil, wakeOne, hwb] at hchildren ⊢
    exact ⟨by rw [hone, hresult]; rfl, rfl,
      ⟨hloses, hi.wake b, hbooks.trans hcollected, hchildren⟩⟩

/-! ### After a process has left -/

/-- The sleepers on a process that has left are gone. -/
theorem sleepers_without (s : Session) (k : Kernel) (contexts : Assoc Pid Nat) (b x : BlockId) :
    sleepers { s with
      kernel := k
      contexts := contexts
      parked := s.parked.filter (·.block != b) } x = if x = b then 0 else s.sleepers x := by
  unfold sleepers
  rw [List.countP_filter]
  split
  · next hx =>
    subst hx
    refine List.countP_eq_zero.2 fun w _ => ?_
    simp
  · next hx =>
    refine List.countP_congr fun w _ => ?_
    simp only [Bool.and_eq_true, beq_iff_eq, bne_iff_ne]
    exact and_iff_left_of_imp fun hw => hw ▸ hx

/-- Processes can leave one after the other. -/
theorem Hale.leave (h : s.Hale) (hb : s.kernel.pids.lookup p = some b) (hp : p ≠ kernelPid)
    (hr : (s.kernel.block b).state = .running) (status : ExitStatus) :
    (s.leave p status).2.Hale := by
  obtain ⟨-, he, hl, hi, hbooks, -⟩ := h.left hb hp hr status
  have hsettled : (s.leave p status).2.Settled := settled_settle _
  generalize (s.leave p status).2.kernel = k' at he hbooks hi hl
  rw [he] at hsettled ⊢
  have howed : ∀ t : Session, (t.account []).owed = fun x => t.refs x + t.sleepers x + t.forks x :=
    fun _ => rfl
  have hbefore := h.kernel.bounded
  rw [howed] at hbefore
  refine ⟨hbooks.fault.trans h.fault, ⟨hi, hl.tidy h.kernel.tidy, hl.even h.kernel.even, ?_⟩,
    hsettled, fun x => ?_, h.apart⟩
  · rw [howed]
    refine hl.bounded hbefore ?_ fun x hx => ?_
    · have hsleepers := h.watched b
      simp only [hr, true_and] at hsleepers
      rw [sleepers_without, if_pos rfl, hsleepers]
      change _ ≤ s.refs b + 0 + s.forks b + _
      omega
    · rw [sleepers_without, if_neg hx]
      exact Nat.le_refl _
  · rw [sleepers_without]
    simp only [hl.running_iff, hl.waiter_eq]
    split
    · next hx => exact (if_neg fun hc => hc.1.1 hx).symm
    · next hx =>
      rw [h.watched x]
      simp only [hx, not_false_eq_true, true_and, ne_eq]

end Session

end Lifecycle
