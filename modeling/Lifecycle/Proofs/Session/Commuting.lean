import Lifecycle.Proofs.Kernel.Commuting
import Lifecycle.Proofs.Session.Hale

/-! Exits commute: running processes that nobody holds and that are not forking leave a session in
any order, and it is the same session afterwards, with the same results for those who waited. Two
processes are swapped at a time; what sessions in accord go through after that is the same. -/

namespace Lifecycle.Session

/-- A user's process that runs, that no slot holds and that is not forking. -/
structure Leaver (s : Session) (p : Pid) (b : BlockId) : Prop where
  user : p ≠ kernelPid
  found : s.kernel.pids.lookup p = some b
  running : (s.kernel.block b).state = .running
  unheld : s.refs b = 0
  idle : s.forks b = 0

/-- Processes of that kind, each with the status that it leaves with. -/
structure Leavers (s : Session) (l : List (Pid × ExitStatus)) : Prop where
  nodup : (l.map Prod.fst).Nodup
  leaver : ∀ x ∈ l, ∃ b, s.Leaver x.1 b

/-- Processes leave one after the other; the waits that wake. -/
def leaveAll (s : Session) : List (Pid × ExitStatus) → List Woken × Session
  | [] => ([], s)
  | x :: l => ((s.leave x.1 x.2).1 ++ ((s.leave x.1 x.2).2.leaveAll l).1,
    ((s.leave x.1 x.2).2.leaveAll l).2)

/-- The exits of processes, one after the other. -/
def exits (l : List (Pid × ExitStatus)) : List Move := l.map fun x => .exit x.1 x.2

/-- The waits that wake over a run. -/
def wakes (s : Session) : List Move → List Woken
  | [] => []
  | move :: moves =>
    if s.kernel.fault.isSome then [] else (s.step move).2.1 ++ (s.step move).2.2.wakes moves

/-- A process has its context, and nothing keeps that in use. -/
def CanExit (s : Session) (p : Pid) : Prop :=
  ∃ context, s.contexts.get? p = some context ∧ s.isBusy context = false

/-- Processes leave in either of two orders, and nobody sees which it was. -/
structure Commutes (s : Session) (l l' : List (Pid × ExitStatus)) : Prop where
  fault : (s.leaveAll l).2.kernel.fault = none
  /-- The same waits wake, with the same results. -/
  woken : (s.leaveAll l').1.Perm (s.leaveAll l).1
  kernel : (s.leaveAll l).2.kernel.Matches (s.leaveAll l').2.kernel
  session : (s.leaveAll l').2 = { (s.leaveAll l).2 with kernel := (s.leaveAll l').2.kernel }
  /-- The moves by which processes exit come to that, if they can be made. -/
  moves : (∀ x ∈ l, s.CanExit x.1) → ∀ order ∈ [l, l'],
    s.run (exits order) = (s.leaveAll order).2 ∧ s.wakes (exits order) = (s.leaveAll order).1

/-- Sessions that differ in their tables alone, which are in accord. -/
structure Agrees (s t : Session) : Prop where
  session : t = { s with kernel := t.kernel }
  kernel : s.kernel.Accords t.kernel

variable {s t u : Session} {p q : Pid} {b c : BlockId} {l l' : List (Pid × ExitStatus)}

/-! ### One process -/

theorem Leaver.counted (h : s.Leaver p b) (hs : s.Hale) : (s.kernel.block b).refCount ≠ 0 :=
  hs.intact.counted h.found

theorem Leaver.left (h : s.Leaver p b) (hs : s.Hale) (status : ExitStatus) :
    s.Left p b status (s.leave p status) :=
  hs.left h.found h.user h.running status

theorem Leaver.hale (h : s.Leaver p b) (hs : s.Hale) (status : ExitStatus) :
    (s.leave p status).2.Hale :=
  hs.leave h.found h.user h.running status

/-- Only the table and a sleeper have a reference on it. -/
theorem Leaver.kernel (h : s.Leaver p b) (hs : s.Hale) : s.kernel.Leaver b where
  running := h.running
  parent := hs.kernel.tidy.parent
  bounded := by
    have hbounded := hs.kernel.bounded b
    have howed : (s.account []).owed b = s.refs b + s.sleepers b + s.forks b := rfl
    obtain ⟨hreaped, -⟩ := (Block.state_eq_running_iff _).1 h.running
    rw [howed, h.unheld, h.idle, hs.watched b, hreaped] at hbounded
    simp only [h.running, true_and, Bool.false_eq_true, if_false] at hbounded
    omega

/-- When one has left, the others still can. -/
theorem Leaver.leave (h : s.Leaver p b) (h' : s.Leaver q c) (hs : s.Hale) (hpq : p ≠ q)
    (status : ExitStatus) : (s.leave p status).2.Leaver q c := by
  obtain ⟨-, hsession, hdeparts⟩ := h.left hs status
  have hloses := hdeparts.loses
  have hpid := (hs.intact.lookup_iff.1 h'.found).1
  have hcb : c ≠ b := fun hc => hpq (hloses.pid.symm.trans (hc ▸ hpid))
  have hrunning := hloses.running_iff.2 ⟨hcb, h'.running⟩
  generalize (s.leave p status).2.kernel = k' at hsession hdeparts hloses hrunning
  rw [hsession]
  refine ⟨h'.user, hdeparts.intact.lookup_iff.2 ⟨(hloses.pid_eq c).trans hpid, ?_⟩, hrunning,
    h'.unheld, h'.idle⟩
  rw [hloses.refCount_eq hrunning]
  exact h'.counted hs

/-! ### Sessions in accord -/

theorem Agrees.refl (s : Session) : s.Agrees s := ⟨rfl, .refl _⟩

theorem Agrees.trans (h : s.Agrees t) (h' : t.Agrees u) : s.Agrees u := by
  refine ⟨?_, h.kernel.trans h'.kernel⟩
  rw [h'.session, h.session]

/-- The same process leaves sessions that are in accord, and wakes the same waits. -/
theorem Agrees.leave (h : s.Agrees t) (hs : s.Hale) (ht : t.Hale) (hb : s.Leaver p b)
    (hc : t.Leaver p c) (status : ExitStatus) :
    (s.leave p status).1 = (t.leave p status).1 ∧
      (s.leave p status).2.Agrees (t.leave p status).2 := by
  obtain ⟨hw, hsession, hd⟩ := hb.left hs status
  obtain ⟨hw', hsession', hd'⟩ := hc.left ht status
  have hparked : t.parked = s.parked := by rw [h.session]
  have htaken : t.taken = s.taken := by
    rw [h.session]
    rfl
  obtain rfl : b = c := by
    have hfound := h.kernel.lookup hs.intact (htaken ▸ ht.intact) p
    rw [hb.found, hc.found] at hfound
    exact (Option.some.inj hfound).symm
  refine ⟨by rw [hw, hw', hparked], ?_, ?_⟩
  · generalize (s.leave p status).2.kernel = k' at hsession
    rw [hsession', hsession, h.session]
  · exact hd.accords (htaken ▸ hd') h.kernel hs.intact (hb.counted hs)

/-! ### Leavers -/

theorem Leavers.perm (h : s.Leavers l) (hp : l.Perm l') : s.Leavers l' :=
  ⟨(hp.map Prod.fst).nodup_iff.1 h.nodup, fun x hx => h.leaver x (hp.mem_iff.2 hx)⟩

variable {x y : Pid × ExitStatus}

theorem Leavers.head (h : s.Leavers (x :: l)) : ∃ b, s.Leaver x.1 b :=
  h.leaver x List.mem_cons_self

theorem Leavers.hale (h : s.Leavers (x :: l)) (hs : s.Hale) : (s.leave x.1 x.2).2.Hale := by
  obtain ⟨b, hb⟩ := h.head
  exact hb.hale hs x.2

theorem Leavers.apart (h : s.Leavers (x :: l)) (hy : y ∈ l) : x.1 ≠ y.1 := fun hxy =>
  (List.nodup_cons.1 h.nodup).1 (hxy ▸ List.mem_map_of_mem hy)

theorem Leavers.tail (h : s.Leavers (x :: l)) (hs : s.Hale) :
    (s.leave x.1 x.2).2.Leavers l := by
  obtain ⟨b, hb⟩ := h.head
  refine ⟨(List.nodup_cons.1 h.nodup).2, fun y hy => ?_⟩
  obtain ⟨c, hc⟩ := h.leaver y (List.mem_cons_of_mem _ hy)
  exact ⟨c, hb.leave hc hs (h.apart hy) x.2⟩

theorem Leavers.leaveAll (h : s.Leavers l) (hs : s.Hale) : (s.leaveAll l).2.Hale := by
  induction l generalizing s with
  | nil => exact hs
  | cons x l ih => exact ih (h.tail hs) (h.hale hs)

/-- What has been swapped before makes no difference to those who leave later. -/
theorem Agrees.leaveAll (h : s.Agrees t) (hs : s.Hale) (ht : t.Hale) (hl : s.Leavers l)
    (hl' : t.Leavers l) :
    (s.leaveAll l).1 = (t.leaveAll l).1 ∧ (s.leaveAll l).2.Agrees (t.leaveAll l).2 := by
  induction l generalizing s t with
  | nil => exact ⟨rfl, h⟩
  | cons x l ih =>
    obtain ⟨b, hb⟩ := hl.head
    obtain ⟨c, hc⟩ := hl'.head
    obtain ⟨hwoken, hagrees⟩ := h.leave hs ht hb hc x.2
    obtain ⟨hlater, hlast⟩ := ih hagrees (hl.hale hs) (hl'.hale ht) (hl.tail hs) (hl'.tail ht)
    exact ⟨congrArg₂ (· ++ ·) hwoken hlater, hlast⟩

/-! ### Two processes -/

/-- Sleepers on another block wait on. -/
theorem sleepers_apart (ws : List ParkedWait) (hbc : b ≠ c) :
    (ws.filter (·.block != b)).filter (·.block == c) = ws.filter (·.block == c) := by
  rw [List.filter_filter]
  refine List.filter_congr fun w _ => ?_
  rw [Bool.and_eq_left_iff_imp, beq_iff_eq, bne_iff_ne]
  rintro rfl
  exact hbc.symm

/-- Two processes leave in either order, and each wakes the same waits. -/
theorem Leaver.swap (hb : s.Leaver p b) (hc : s.Leaver q c) (hs : s.Hale) (hpq : p ≠ q)
    (status status' : ExitStatus) :
    ((s.leave p status).2.leave q status').1 = (s.leave q status').1 ∧
      ((s.leave q status').2.leave p status).1 = (s.leave p status).1 ∧
      ((s.leave p status).2.leave q status').2.Agrees
        ((s.leave q status').2.leave p status).2 := by
  have hcb := hb.leave hc hs hpq status
  have hbc := hc.leave hb hs hpq.symm status'
  have hs₁ := hb.hale hs status
  have hs₂ := hc.hale hs status'
  obtain ⟨hw₁, he₁, hd₁⟩ := hb.left hs status
  obtain ⟨hw₂, he₂, hd₂⟩ := hc.left hs status'
  obtain ⟨hw₁₂, he₁₂, hd₁₂⟩ := hcb.left hs₁ status'
  obtain ⟨hw₂₁, he₂₁, hd₂₁⟩ := hbc.left hs₂ status
  have hne : b ≠ c := by
    rintro rfl
    exact hpq (hd₁.loses.pid.symm.trans hd₂.loses.pid)
  have htaken₁ : (s.leave p status).2.taken = s.taken := by rw [he₁]; rfl
  have htaken₂ : (s.leave q status').2.taken = s.taken := by rw [he₂]; rfl
  have hparked₁ : (s.leave p status).2.parked = s.parked.filter (·.block != b) := by rw [he₁]
  have hparked₂ : (s.leave q status').2.parked = s.parked.filter (·.block != c) := by rw [he₂]
  refine ⟨?_, ?_, ?_, ?_⟩
  · rw [hw₁₂, hw₂, hparked₁, sleepers_apart _ hne]
  · rw [hw₂₁, hw₁, hparked₂, sleepers_apart _ hne.symm]
  · generalize ((s.leave p status).2.leave q status').2.kernel = k₁₂ at he₁₂
    generalize ((s.leave q status').2.leave p status).2.kernel = k₂₁ at he₂₁
    generalize (s.leave p status).2.kernel = k₁ at he₁
    generalize (s.leave q status').2.kernel = k₂ at he₂
    rw [he₂₁, he₁₂, he₁, he₂]
    simp only [Assoc.erase_comm s.contexts p q,
      List.filter_comm fun w : ParkedWait => w.block != b]
  · exact hd₁.comm hs.intact (htaken₁ ▸ hd₁₂) hd₂ (htaken₂ ▸ hd₂₁) (hb.kernel hs) (hc.kernel hs)
      hne

/-! ### Any order -/

/-- Leavers leave in any order. -/
theorem Leavers.comm (h : s.Leavers l) (hs : s.Hale) (hp : l.Perm l') :
    (s.leaveAll l).1.Perm (s.leaveAll l').1 ∧ (s.leaveAll l).2.Agrees (s.leaveAll l').2 := by
  induction hp generalizing s with
  | nil => exact ⟨.refl _, .refl s⟩
  | cons x _ ih =>
    obtain ⟨hwoken, hagrees⟩ := ih (h.tail hs) (h.hale hs)
    exact ⟨hwoken.append_left _, hagrees⟩
  | swap x y l =>
    have h' := h.perm (.swap x y l)
    obtain ⟨c, hc⟩ := h.head
    obtain ⟨b, hb⟩ := h'.head
    obtain ⟨hwx, hwy, hagrees⟩ := hc.swap hb hs (h.apart List.mem_cons_self) y.2 x.2
    obtain ⟨hrest, hlast⟩ := hagrees.leaveAll ((h.tail hs).hale (h.hale hs))
      ((h'.tail hs).hale (h'.hale hs)) ((h.tail hs).tail (h.hale hs))
      ((h'.tail hs).tail (h'.hale hs))
    refine ⟨?_, hlast⟩
    unfold Session.leaveAll Session.leaveAll
    dsimp only
    rw [hwx, hwy, hrest, ← List.append_assoc, ← List.append_assoc]
    exact List.perm_append_comm.append_right _
  | trans hp₁ _ ih₁ ih₂ =>
    obtain ⟨hwoken, hagrees⟩ := ih₁ h hs
    obtain ⟨hwoken', hagrees'⟩ := ih₂ (h.perm hp₁) hs
    exact ⟨hwoken.trans hwoken', hagrees.trans hagrees'⟩

/-! ### Exits as moves -/

/-- A process with its context at hand exits. -/
theorem step_of_canExit (h : s.CanExit p) (status : ExitStatus) :
    (s.step (.exit p status)).2 = s.leave p status := by
  obtain ⟨context, hcontext, hbusy⟩ := h
  change (s.exit p status).2.settle = _
  unfold exit leave
  rw [hcontext]
  dsimp only
  rw [hbusy]
  rfl

/-- A wait that is made directly keeps nobody from exiting, not even its own caller. -/
theorem CanExit.wait_table (h : s.CanExit p) (caller : Pid) (target : Int64) (options : Int32)
    (destination : Option RawStatus) :
    (s.wait caller target options .table destination).2.CanExit p := by
  obtain ⟨context, hcontext, hbusy⟩ := h
  unfold wait
  rw [canCall, Bool.not_true, if_neg Bool.false_ne_true]
  generalize s.kernel.wait caller target options = out
  obtain ⟨outcome, kernel⟩ := out
  refine ⟨context, ?_⟩
  cases outcome with
  | done result => exact ⟨hcontext, hbusy⟩
  | asleep b =>
    refine ⟨hcontext, ?_⟩
    have hkept : [(⟨s.nextWait, b, caller, .table, s.contexts.get? caller, destination⟩ :
        ParkedWait)].any (·.kept == some context) = false := rfl
    rw [isBusy, List.any_append, hkept, Bool.or_false]
    exact hbusy

/-- A process waits directly for its child and exits; the wait sleeps on. -/
example : ∃ s : Session, boot { maxProcesses := 4 } none = .ok s ∧
    let t := s.run [.fork 0 .context, .resume none, .resume none, .resume none, .resume none,
      .fork 1 .context, .resume none, .resume none, .resume none, .resume none,
      .wait 1 2 0 .table none, .exit 1 ⟨.exited, 0⟩]
    t.contexts.get? 1 = none ∧ t.parked.map (·.block) = [2] :=
  ⟨_, rfl, by decide +kernel⟩

/-- A process that leaves takes no other's context, and keeps none in use. -/
theorem Leaver.canExit (h : s.Leaver p b) (hs : s.Hale) (hq : s.CanExit q) (hpq : p ≠ q)
    (status : ExitStatus) : (s.leave p status).2.CanExit q := by
  obtain ⟨context, hcontext, hbusy⟩ := hq
  obtain ⟨-, hsession, -⟩ := h.left hs status
  generalize (s.leave p status).2.kernel = k' at hsession
  rw [hsession]
  refine ⟨context, (s.contexts.get?_erase p q).trans ((if_neg hpq.symm).trans hcontext), ?_⟩
  unfold isBusy at hbusy ⊢
  rw [Bool.or_eq_false_iff, List.any_eq_false] at hbusy ⊢
  exact ⟨fun w hw => hbusy.1 w (List.mem_filter.1 hw).1, hbusy.2⟩

theorem Leavers.run (h : s.Leavers l) (hs : s.Hale) (hx : ∀ x ∈ l, s.CanExit x.1) :
    s.run (exits l) = (s.leaveAll l).2 ∧ s.wakes (exits l) = (s.leaveAll l).1 := by
  induction l generalizing s with
  | nil => exact ⟨rfl, rfl⟩
  | cons x l ih =>
    obtain ⟨b, hb⟩ := h.head
    have hstep := step_of_canExit (hx x List.mem_cons_self) x.2
    obtain ⟨hrun, hwakes⟩ := ih (h.tail hs) (h.hale hs) fun y hy =>
      hb.canExit hs (hx y (List.mem_cons_of_mem _ hy)) (h.apart hy) x.2
    have hexits : exits (x :: l) = .exit x.1 x.2 :: exits l := rfl
    rw [hexits, run_cons, wakes, hs.fault, hstep]
    exact ⟨hrun, congrArg ((s.leave x.1 x.2).1 ++ ·) hwakes⟩

/-- In a live session in which no check has failed, running processes that no slot holds and that
are not forking can exit in any order. -/
theorem exits_commute {config : Config} {refusal : Option Errno} {moves : List Move}
    (hb : boot config refusal = .ok s) (hf : (s.run moves).kernel.fault = none)
    (hl : (s.run moves).kernel.live = true) (hx : (s.run moves).Leavers l) (hp : l.Perm l') :
    (s.run moves).Commutes l l' := by
  obtain ⟨hfirm, hsettled⟩ := firm_boot hb
  have hs : (s.run moves).Hale := hale_run hfirm hsettled (fun _ _ => hale_boot hb) moves hf hl
  obtain ⟨hwoken, hagrees⟩ := hx.comm hs hp
  have hx' := hx.perm hp
  have hlast := hx.leaveAll hs
  have htaken : ((s.run moves).leaveAll l').2.taken = ((s.run moves).leaveAll l).2.taken := by
    rw [hagrees.session]
    rfl
  refine ⟨hlast.fault, hwoken.symm,
    hagrees.kernel.matching hlast.intact (htaken ▸ (hx'.leaveAll hs).intact), hagrees.session,
    fun hcan => ?_⟩
  rw [List.forall_mem_cons, List.forall_mem_singleton]
  exact ⟨hx.run hs hcan, hx'.run hs fun x hm => hcan x (hp.mem_iff.2 hm)⟩

/-- A parent, its child and a third process, with waits on two of them, exit in two orders. -/
theorem exits_commute_of_three : ∃ s : Session, ∃ moves : List Move,
    ∃ l l' : List (Pid × ExitStatus),
    boot { maxProcesses := 4 } none = .ok s ∧ (s.run moves).kernel.fault = none ∧
      (s.run moves).kernel.live = true ∧ (s.run moves).parked.map (·.block) = [1, 3] ∧
      (s.run moves).kernel.family.childrenOf 1 = [2] ∧
      l.map Prod.fst = [1, 2, 3] ∧ l'.map Prod.fst = [3, 2, 1] ∧
      (s.run moves).Commutes l l' ∧
      (s.run (moves ++ exits l)).kernel.Matches (s.run (moves ++ exits l')).kernel := by
  let moves : List Move :=
    [.fork 0 .context, .resume none, .resume none, .resume none, .resume none,
      .fork 1 .context, .resume none, .resume none, .resume none, .resume none,
      .fork 0 .context, .resume none, .resume none, .resume none, .resume none,
      .wait 0 1 0 .context none, .wait 0 3 0 .table none]
  let l : List (Pid × ExitStatus) := [(1, ⟨.exited, 7⟩), (2, ⟨.exited, 0⟩), (3, ⟨.signaled, 9⟩)]
  have hreverse : l.Perm l.reverse := (List.reverse_perm l).symm
  obtain ⟨s, hb, hf, hl, hparked, hchildren, hleaver⟩ : ∃ s : Session,
      boot { maxProcesses := 4 } none = .ok s ∧ (s.run moves).kernel.fault = none ∧
        (s.run moves).kernel.live = true ∧ (s.run moves).parked.map (·.block) = [1, 3] ∧
        (s.run moves).kernel.family.childrenOf 1 = [2] ∧
        ∀ x ∈ l, x.1 ≠ kernelPid ∧ (s.run moves).kernel.pids.lookup x.1 = some x.1.toNat ∧
          ((s.run moves).kernel.block x.1.toNat).state = .running ∧
          (s.run moves).refs x.1.toNat = 0 ∧ (s.run moves).forks x.1.toNat = 0 ∧
          (s.run moves).contexts.get? x.1 = some (x.1.toNat - 1) ∧
          (s.run moves).isBusy (x.1.toNat - 1) = false :=
    ⟨_, rfl, by decide +kernel⟩
  have hleavers : (s.run moves).Leavers l := ⟨by decide, fun x hx => by
    obtain ⟨hp, hfound, hrunning, hrefs, hforks, -⟩ := hleaver x hx
    exact ⟨_, hp, hfound, hrunning, hrefs, hforks⟩⟩
  have hcommutes := exits_commute hb hf hl hleavers hreverse
  have hexits := hcommutes.moves fun x hx => ⟨_, (hleaver x hx).2.2.2.2.2⟩
  refine ⟨s, moves, l, l.reverse, hb, hf, hl, hparked, hchildren, rfl, rfl, hcommutes, ?_⟩
  rw [run_append, run_append, (hexits l List.mem_cons_self).1,
    (hexits l.reverse (List.mem_cons_of_mem _ List.mem_cons_self)).1]
  exact hcommutes.kernel

end Lifecycle.Session
