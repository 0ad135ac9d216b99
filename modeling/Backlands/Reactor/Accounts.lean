/-
  Backlands.Reactor.Accounts — every task that was taken in is accounted for.

  Proved: along every run the callbacks started, the tasks let go and the tasks still
  waiting are together exactly the tasks taken in, each once; a task let go was cancelled,
  by a cancellation taken in for it, or has passed its deadline (`Accounted`,
  `accounted_step`).
-/

import Backlands.Reactor.Identifiers

namespace Backlands.Reactor

open Backlands.Lib List

/-- The number of the task a call carries. -/
def Call.serial? : Call → Option Nat
  | .send t => some t.serial
  | .schedule t => some t.serial
  | .cancel _ => none

/-- The task a call carries has a callback. -/
def Call.Callable : Call → Prop
  | .send t => t.function = true
  | .schedule t => t.function = true
  | .cancel _ => True

def everywhere (s : State) : List Task := s.started.map (·.2) ++ (s.dropped.map (·.1) ++ waiting s)

/-- Why a task that was taken in may have been let go. -/
def Excused (s : State) (t : Task) : Reason → Prop
  | .cancelled => t ∈ s.cancels
  | .expired => t.hasExpired s.clock = true
  | .empty => False

structure Accounted (s : State) : Prop where
  everywhere : (everywhere s).Perm s.accepted
  serials : (s.accepted.map (·.serial) ++ s.calls.filterMap Call.serial?).Nodup
  below : ∀ n ∈ s.accepted.map (·.serial) ++ s.calls.filterMap Call.serial?, n < s.nextSequence
  callable : (∀ t ∈ s.accepted, t.function = true) ∧ ∀ c ∈ s.calls, c.Callable
  excused : ∀ p ∈ s.dropped, Excused s p.1 p.2

section
variable {s : State}

variable {t : Task}

theorem Accounted.nodup (h : Accounted s) : (Reactor.everywhere s).Nodup := by
  rw [h.everywhere.nodup_iff]
  exact (List.Nodup.of_append_left h.serials).of_map _

theorem Accounted.nodup_waiting (h : Accounted s) : (waiting s).Nodup :=
  (nodup_append.mp (nodup_append.mp h.nodup).2.1).2.1

theorem Accounted.accepted_of_waiting (h : Accounted s) (hw : t ∈ waiting s) : t ∈ s.accepted :=
  h.everywhere.mem_iff.mp (mem_append_right _ (mem_append_right _ hw))

theorem Accounted.not_waiting_of_started (h : Accounted s) {c : Nat} (hs : (c, t) ∈ s.started) : t ∉ waiting s := by
  intro hw
  have hm : t ∈ s.started.map (·.2) := mem_map.mpr ⟨(c, t), hs, rfl⟩
  exact (nodup_append.mp h.nodup).2.2 t hm t (mem_append_right _ hw) rfl

/-! ## The driver's steps -/

theorem excused_mono {s' : State} (hsame : SameCalls s s') {r : Reason} (h : Excused s t r) : Excused s' t r := by
  cases r with
  | cancelled =>
    show t ∈ s'.cancels
    rw [hsame.cancels]
    exact h
  | expired =>
    show t.hasExpired s'.clock = true
    rw [hsame.clock]
    exact h
  | empty => exact h

theorem excused_of_because (hres : Reserved s) (h : Accounted s) {r : Reason} (ht : t ∈ waiting s)
    (hb : Because s t r) : Excused s t r := by
  cases r with
  | cancelled => exact hres.aimed t (mem_append_left _ ht) hb
  | expired => exact hb
  | empty =>
    rw [Because, h.callable.1 t (h.accepted_of_waiting ht)] at hb
    cases hb

theorem drive_everywhere (hp : Placed s) : (everywhere (drive s)).Perm (everywhere s) := by
  unfold everywhere
  rcases drive_effect hp with ⟨hw, -, -, -, hs, hd⟩ | ⟨t, r, hw, -, -, -, -, hs, hd⟩ |
    ⟨t, hw, -, -, -, -, hs, hd⟩ | ⟨t, hw, -, -, -, hs, hd⟩
  · rw [hs, hd]
    exact (hw.append_left _).append_left _
  · rw [hs, hd]
    refine List.Perm.append_left _ ?_
    simp only [map_append, map_cons, map_nil, append_assoc, singleton_append]
    exact hw.symm.append_left _
  · rw [hs, hd]
    simp only [map_append, map_cons, map_nil, append_assoc, singleton_append]
    refine List.Perm.append_left _ ?_
    exact perm_middle.symm.trans (hw.symm.append_left _)
  · rw [hs, hd, hw]

theorem excused_drive (hres : Reserved s) (h : Accounted s) : ∀ p ∈ (drive s).dropped, Excused (drive s) p.1 p.2 := by
  have hsame := drive_sameCalls s
  have hold : ∀ p ∈ s.dropped, Excused (drive s) p.1 p.2 := fun p hp => excused_mono hsame (h.excused p hp)
  rcases drive_effect hres.placed with ⟨-, -, -, -, -, hd⟩ | ⟨t, r, hw, -, -, -, hb, -, hd⟩ |
    ⟨t, -, -, -, -, -, -, hd⟩ | ⟨t, -, -, -, -, -, hd⟩
  · rw [hd]
    exact hold
  · rw [hd]
    intro p hp
    rcases mem_append.mp hp with hp | hp
    · exact hold p hp
    · obtain rfl := mem_singleton.mp hp
      have ht : t ∈ waiting s := hw.mem_iff.mpr mem_cons_self
      exact excused_mono hsame (excused_of_because hres h ht hb)
  · rw [hd]
    exact hold
  · rw [hd]
    exact hold

theorem accounted_drive (hres : Reserved s) (h : Accounted s) : Accounted (drive s) := by
  have hsame := drive_sameCalls s
  constructor
  · rw [hsame.accepted]
    exact (drive_everywhere hres.placed).trans h.everywhere
  · rw [hsame.accepted, hsame.calls]
    exact h.serials
  · rw [hsame.accepted, hsame.calls, hsame.nextSequence]
    exact h.below
  · rw [hsame.accepted, hsame.calls]
    exact h.callable
  · exact excused_drive hres h

/-! ## The other threads' steps -/

theorem accounted_call_task (h : Accounted s) {c : Call} (hn : c.serial? = some s.nextSequence) (hc : c.Callable) :
    Accounted { s with nextSequence := s.nextSequence + 1, calls := s.calls ++ [c] } := by
  have hlist : s.accepted.map (·.serial) ++ (s.calls ++ [c]).filterMap Call.serial? =
      s.accepted.map (·.serial) ++ s.calls.filterMap Call.serial? ++ [s.nextSequence] := by
    simp [filterMap_append, hn]
  constructor
  · exact h.everywhere
  · rw [hlist, nodup_append]
    refine ⟨h.serials, nodup_singleton _, ?_⟩
    intro a ha b hb
    obtain rfl := mem_singleton.mp hb
    have := h.below a ha
    omega
  · show ∀ n ∈ s.accepted.map (·.serial) ++ (s.calls ++ [c]).filterMap Call.serial?, n < s.nextSequence + 1
    rw [hlist]
    intro n hn'
    rcases mem_append.mp hn' with hn' | hn'
    · have := h.below n hn'
      omega
    · have := mem_singleton.mp hn'
      omega
  · refine ⟨h.callable.1, ?_⟩
    intro d hd
    rcases mem_append.mp hd with hd | hd
    · exact h.callable.2 d hd
    · obtain rfl := mem_singleton.mp hd
      exact hc
  · exact h.excused

theorem accounted_call (h : Accounted s) (r : Request) : Accounted (call r s) := by
  cases r with
  | send now expirationTime callback =>
    simp only [call, callSend]
    split
    · exact h
    · exact accounted_call_task h rfl rfl
  | schedule now delay callback =>
    simp only [call, callSchedule]
    split
    · exact h
    · exact accounted_call_task h rfl rfl
  | cancel i =>
    simp only [call, callCancel]
    split
    · exact h
    have hlist : (s.calls ++ [Call.cancel i]).filterMap Call.serial? = s.calls.filterMap Call.serial? := by
      rw [filterMap_append]
      exact append_nil _
    refine ⟨h.everywhere, ?_, ?_, ⟨h.callable.1, ?_⟩, h.excused⟩
    · rw [hlist]
      exact h.serials
    · rw [hlist]
      exact h.below
    intro d hd
    rcases mem_append.mp hd with hd | hd
    · exact h.callable.2 d hd
    · obtain rfl := mem_singleton.mp hd
      trivial

theorem accounted_left (h : Accounted s) (i : Nat) : Accounted { s with calls := s.calls.eraseIdx i } := by
  have hsub : (s.accepted.map (·.serial) ++ (s.calls.eraseIdx i).filterMap Call.serial?).Sublist
      (s.accepted.map (·.serial) ++ s.calls.filterMap Call.serial?) :=
    ((eraseIdx_sublist _ _).filterMap _).append_left _
  refine ⟨h.everywhere, h.serials.sublist hsub, ?_, ⟨h.callable.1, ?_⟩, h.excused⟩
  · intro n hn
    exact h.below n (hsub.subset hn)
  · intro c hc
    exact h.callable.2 c (mem_of_mem_eraseIdx hc)

theorem accounted_taken {s' : State} (h : Accounted s) {i : Nat} {c : Call} (hi : s.calls[i]? = some c)
    (hn : c.serial? = some t.serial) (hf : t.function = true) (hcalls : s'.calls = s.calls.eraseIdx i)
    (hacc : s'.accepted = s.accepted ++ [t]) (hw : (waiting s').Perm (t :: waiting s)) (hs : s'.started = s.started)
    (hd : s'.dropped = s.dropped) (hseq : s'.nextSequence = s.nextSequence) (hcan : s'.cancels = s.cancels)
    (hclock : s'.clock = s.clock) : Accounted s' := by
  have hperm : (s'.accepted.map (·.serial) ++ s'.calls.filterMap Call.serial?).Perm
      (s.accepted.map (·.serial) ++ s.calls.filterMap Call.serial?) := by
    obtain ⟨hlt, rfl⟩ := List.getElem?_eq_some_iff.mp hi
    have hc : (s.calls[i] :: s.calls.eraseIdx i).Perm s.calls := getElem_cons_eraseIdx_perm hlt
    have hc' := hc.filterMap Call.serial?
    rw [filterMap_cons_some hn] at hc'
    rw [hacc, hcalls, map_append, append_assoc]
    exact hc'.append_left _
  constructor
  · rw [hacc, everywhere, hs, hd]
    have h1 : (s.started.map (·.2) ++ (s.dropped.map (·.1) ++ waiting s')).Perm (t :: Reactor.everywhere s) :=
      ((hw.append_left _).append_left _).trans
        ((perm_middle.append_left _).trans perm_middle)
    exact h1.trans ((h.everywhere.cons t).trans (perm_append_singleton t s.accepted).symm)
  · exact hperm.nodup_iff.mpr h.serials
  · intro n hn'
    rw [hseq]
    exact h.below n (hperm.mem_iff.mp hn')
  · refine ⟨?_, ?_⟩
    · rw [hacc]
      intro u hu
      rcases mem_append.mp hu with hu | hu
      · exact h.callable.1 u hu
      · obtain rfl := mem_singleton.mp hu
        exact hf
    · rw [hcalls]
      intro d hd'
      exact h.callable.2 d (mem_of_mem_eraseIdx hd')
  · rw [hd]
    intro p hp
    have hex := h.excused p hp
    cases hr : p.2 with
    | cancelled =>
      rw [hr] at hex
      show p.1 ∈ s'.cancels
      rw [hcan]
      exact hex
    | expired =>
      rw [hr] at hex
      show p.1.hasExpired s'.clock = true
      rw [hclock]
      exact hex
    | empty =>
      rw [hr] at hex
      exact hex

theorem waiting_sendInbox_snoc (s : State) (t : Task) (accepted : List Task) (calls : List Call) :
    (waiting { s with sendInbox := s.sendInbox ++ [t], accepted := accepted, calls := calls }).Perm (t :: waiting s) := by
  simp only [waiting, append_assoc, singleton_append]
  exact ((perm_middle.append_left _).append_left _).trans ((perm_middle.append_left _).trans perm_middle)

theorem accounted_enter (h : Accounted s) (i : Nat) : Accounted (enter i s) := by
  unfold enter
  split
  · exact h
  rename_i c hc
  have hleft := accounted_left h i
  have hcall := h.callable.2 c (mem_of_getElem? hc)
  cases c with
  | send t =>
    simp only [enterCall, enterSend]
    split
    · exact hleft
    · refine accounted_taken h hc rfl hcall rfl rfl ?_ rfl rfl rfl rfl rfl
      exact waiting_sendInbox_snoc s t _ _
  | schedule t =>
    simp only [enterCall, enterSchedule]
    split
    · exact hleft
    split
    · exact hleft
    let identifier := nextFree s.activeIdentifiers (s.activeIdentifiers.card + 1) s.nextIdentifier
    refine accounted_taken (t := { t with identifier := identifier }) h hc rfl hcall rfl rfl ?_ rfl rfl rfl rfl rfl
    simp only [waiting, append_assoc, singleton_append]
    exact perm_middle
  | cancel j =>
    simp only [enterCall, enterCancel]
    split
    · refine { hleft with excused := ?_ }
      intro p hp
      have hex := h.excused p hp
      cases hr : p.2 with
      | cancelled =>
        rw [hr] at hex
        exact mem_append_left _ hex
      | expired =>
        rw [hr] at hex
        exact hex
      | empty =>
        rw [hr] at hex
        exact hex
    · exact hleft

/-! ## Every run -/

theorem accounted_tick (h : Accounted s) (d : Nat) : Accounted (step s (.tick d)) := by
  refine { h with excused := ?_ }
  intro p hp
  have hex := h.excused p hp
  cases hr : p.2 with
  | cancelled =>
    rw [hr] at hex
    exact hex
  | expired =>
    rw [hr] at hex
    exact hasExpired_mono hex (by show s.clock ≤ s.clock + d; omega)
  | empty =>
    rw [hr] at hex
    exact hex

theorem accounted_step (hres : Reserved s) (h : Accounted s) (e : Ev) : Accounted (step s e) := by
  cases e with
  | tick d => exact accounted_tick h d
  | start => exact { h with }
  | shutdown => exact { h with }
  | configure _ _ _ => exact { h with }
  | call r => exact accounted_call h r
  | enter i => exact accounted_enter h i
  | drive => exact accounted_drive hres h

theorem accounted_fresh (h : Fresh s) : Accounted s := by
  obtain ⟨hsend, hsched, -, -, -, -, hheap, hcalls, hdrv, hacc, hsta, hdro, -⟩ := h
  refine ⟨?_, ?_, ?_, ⟨?_, ?_⟩, ?_⟩
  · simp [everywhere, waiting, hsend, hsched, hheap, hdrv, Driver.batch, hacc, hsta, hdro]
  · simp [hacc, hcalls]
  · simp [hacc, hcalls]
  · simp [hacc]
  · simp [hcalls]
  · simp [hdro]

theorem accounted_of_reachable (h : Reachable s) : Reserved s ∧ Accounted s := by
  refine Reach.inv (I := fun s => Reserved s ∧ Accounted s) ?_ ?_ h
  · intro s hs
    exact ⟨reserved_fresh hs, accounted_fresh hs⟩
  · intro s e _ hs
    exact ⟨reserved_step hs.1 e, accounted_step hs.1 hs.2 e⟩

end

end Backlands.Reactor
