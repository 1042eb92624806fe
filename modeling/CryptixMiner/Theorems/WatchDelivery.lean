import CryptixMiner.Theorems.WatchFreshness

/-! When a receiver gets each version once, and each value with its own id. Two steps go wrong: a
    publication between the load of the id and the clone of the value, and a load after a wake-up that
    no new value caused. -/

namespace CryptixMiner.Watch
open StepSystem

section Delivery
variable {α : Type} {c c' : Channel α} {a : Action α} {as : List (Action α)} {s s' : Shared α}
  {p : Published α} {r r' : Receiver α} {k : Nat} {site : Site}

/-- Each value obtained is newer than the ones before, and came with its own id. -/
structure Receiver.Ordered (r : Receiver α) : Prop where
  increasing : r.history.Pairwise fun newer older => older.version < newer.version
  own_id : ∀ o ∈ r.history, o.loaded = o.version

def Channel.Ordered (c : Channel α) : Prop := ∀ k r, c.rx k = some r → r.Ordered

/-- Nothing is published while a receiver is between load and clone, and a receiver that was woken
    loads the id only when a version is there that it has not seen. -/
def Quiet (c : Channel α) : Action α → Prop
  | .sender => ∀ val, c.sender = .replace val → ∀ k r, c.rx k = some r → r.pc.cloning = false
  | .receiver k => ∀ r, c.rx k = some r → r.pc = .load .woken → r.seen < c.shared.version
  | _ => True

/-! ### Quiet steps -/

/-- What holds of a receiver as long as the steps are quiet. -/
structure Receiver.Settled (p : Published α) (r : Receiver α) : Prop where
  ordered : r.Ordered
  loaded_eq_seen : r.pc.cloning = false → r.loaded = r.seen
  unseen : r.pc.cloning = true → r.loaded = p.version ∧ r.seen < p.version

theorem Receiver.Ordered.le_seen (h : r.Ordered) : ∀ o ∈ r.history, o.version ≤ r.seen := by
  intro o ho
  cases hh : r.history with
  | nil =>
    rw [hh] at ho
    cases ho
  | cons x rest =>
    have hseen : r.seen = x.version := by simp [seen, hh]
    have hinc := h.increasing
    rw [hh] at ho hinc
    rcases List.mem_cons.mp ho with rfl | hrest
    · exact Nat.le_of_eq hseen.symm
    · exact hseen ▸ Nat.le_of_lt (List.rel_of_pairwise_cons hinc hrest)

theorem Receiver.Settled.withPc (h : r.Settled p) (hpc : r.pc.cloning = false) {pc : RxPc}
    (hpc' : pc.cloning = false) : ({ r with pc := pc } : Receiver α).Settled p where
  ordered := ⟨h.ordered.increasing, h.ordered.own_id⟩
  loaded_eq_seen _ := h.loaded_eq_seen hpc
  unseen hyes := by
    rw [hpc'] at hyes
    cases hyes

theorem Receiver.Settled.load (h : r.Settled p) (hlt : r.seen < p.version) :
    ({ r with lastObserved := p.id, loaded := p.version, pc := .clone site } : Receiver α).Settled p where
  ordered := ⟨h.ordered.increasing, h.ordered.own_id⟩
  loaded_eq_seen hno := nomatch hno
  unseen _ := ⟨rfl, hlt⟩

theorem Receiver.Settled.clone (h : r.Settled p) (hpc : r.pc = .clone site) : Receiver.Settled p
    { r with history := ⟨p.value, p.version, r.loaded⟩ :: r.history, pc := site.exit } := by
  obtain ⟨hloaded, hlt⟩ := h.unseen (by rw [hpc]; rfl)
  refine ⟨⟨?_, ?_⟩, fun _ => hloaded, fun hyes => ?_⟩
  · refine List.pairwise_cons.mpr ⟨fun o ho => ?_, h.ordered.increasing⟩
    exact Nat.lt_of_le_of_lt (h.ordered.le_seen o ho) hlt
  · intro o ho
    rcases List.mem_cons.mp ho with rfl | ho
    · exact hloaded
    · exact h.ordered.own_id o ho
  · rw [site.exit_cloning] at hyes
    cases hyes

/-- A check that passes, made under the id of the version last obtained, passes for a newer version. -/
theorem Receiver.Settled.seen_lt (h : r.Settled p) (ht : r.Traced p) (hnum : p.Numbered)
    (hpc : r.pc.cloning = false) (hne : r.lastObserved ≠ p.id) : r.seen < p.version := by
  refine Nat.lt_of_le_of_ne ht.seen_le fun heq => hne ?_
  rw [ht.lastObserved_eq, h.loaded_eq_seen hpc, heq, hnum.id_eq]

theorem Receiver.Settled.step (h : r.Settled s.toPublished) (ht : r.Traced s.toPublished) (hnum : s.Numbered)
    (hquiet : r.pc = .load .woken → r.seen < s.version) (hs : r.step k s = some (s', r')) :
    r'.Settled s'.toPublished := by
  rw [(step_published hs).1]
  rcases step_kind hs with ⟨hpc, pc, hpc', rfl⟩ | ⟨site, hpc, hcond, rfl⟩ | ⟨site, hpc, rfl⟩
  · exact h.withPc hpc hpc'
  · refine h.load ?_
    rcases hcond with rfl | hne
    · exact hquiet hpc
    · exact h.seen_lt ht hnum (by rw [hpc]; rfl) hne
  · exact h.clone hpc

def Channel.Settled (c : Channel α) : Prop := ∀ k r, c.rx k = some r → r.Settled c.shared.toPublished

theorem Channel.Settled.kept (h : c.Settled) (ht : c.Traced) (hquiet : Quiet c a) (hs : step c a = some c') :
    c'.Settled := by
  intro k r' hr'
  rcases step_published hs with hpub | ⟨rfl, hrx, val, hval, hpub⟩
  · rcases step_rx hs hr' with ⟨r, rfl, hr, hstep⟩ | ⟨r, site, -, hr, hpc, hsh, rfl⟩ | ⟨r, hr, hpc, hsh, rfl⟩ |
      ⟨_, hr, -⟩ | ⟨-, hr⟩
    · exact (h k r hr).step (ht.rx k r hr) ht.numbered (hquiet r hr) hstep
    · rw [hsh]
      exact (h k r hr).withPc (by rw [hpc]; rfl) rfl
    · rw [hsh]
      exact (h k r hr).withPc (by rw [hpc]; rfl) rfl
    · rw [hpub]
      exact h _ r' hr
    · rw [hpub]
      exact h k r' hr
  · rw [hrx] at hr'
    refine ⟨(h k r' hr').ordered, (h k r' hr').loaded_eq_seen, fun hyes => ?_⟩
    rw [hquiet val hval k r' hr'] at hyes
    cases hyes

theorem channel_settled (init : α) : (channel init).Settled := by
  intro k r hr
  obtain ⟨-, rfl⟩ := (channel_rx_eq_some init).mp hr
  exact ⟨⟨.nil, nofun⟩, fun _ => rfl, nofun⟩

/-! ### A step that is not quiet -/

/-- A receiver that has loaded an id it should not clone a value for. -/
def Channel.Doomed (c : Channel α) (k : Nat) : Prop :=
  ∃ r site, c.rx k = some r ∧ r.pc = .clone site ∧ (r.loaded < c.shared.version ∨ r.seen = c.shared.version)

theorem not_ordered_of_doomed_clone (hd : c.Doomed k) (ht : c.Traced) (hs : step c (.receiver k) = some c') :
    ¬c'.Ordered := by
  intro hord
  obtain ⟨r, site, hr, hpc, hbad⟩ := hd
  obtain ⟨x, r', hx, hstep, -, hrx⟩ := step_receiver hs
  rw [hr] at hx
  cases hx
  have hord' := hord k r' (by rw [hrx, Channel.setRx_rx, if_pos rfl])
  rcases Receiver.step_kind hstep with ⟨hno, -⟩ | ⟨_, hload, -⟩ | ⟨_, -, rfl⟩
  · rw [hpc] at hno
    cases hno
  · rw [hpc] at hload
    cases hload
  · rcases hbad with hlt | hseen
    · exact absurd (hord'.own_id _ List.mem_cons_self) (Nat.ne_of_lt hlt)
    · cases hhist : r.history with
      | nil =>
        simp only [Receiver.seen, hhist, List.head?_nil, Option.map_none, Option.getD_none] at hseen
        exact absurd ht.numbered.version_pos (by rw [← hseen]; exact Nat.not_succ_le_zero 0)
      | cons o rest =>
        have hinc := hord'.increasing
        have hv : o.version = c.shared.version := by simpa [Receiver.seen, hhist] using hseen
        rw [hhist] at hinc
        have hlt := List.rel_of_pairwise_cons hinc List.mem_cons_self
        exact absurd hlt (by simp [hv])

theorem Channel.Doomed.kept (hd : c.Doomed k) (ht : c.Traced) (hs : step c a = some c')
    (ha : a ≠ .receiver k) : c'.Doomed k := by
  obtain ⟨r, site, hr, hpc, hbad⟩ := hd
  refine ⟨r, site, step_rx_kept hs hr (by rw [hpc]; nofun) (by rw [hpc]; nofun) ha, hpc, ?_⟩
  rcases step_published hs with hpub | ⟨-, -, val, -, hpub⟩
  · rwa [hpub]
  · rw [hpub]
    exact .inl (Nat.lt_succ_of_le (ht.rx k r hr).loaded_le)

theorem doomed_of_not_quiet (ht : c.Traced) (hs : step c a = some c') (hnot : ¬Quiet c a) :
    ∃ k, c'.Doomed k := by
  cases a with
  | sender =>
    simp only [Quiet, not_forall, Bool.not_eq_false] at hnot
    obtain ⟨val, hval, k, r, hr, hpc⟩ := hnot
    obtain ⟨site, hpc⟩ : ∃ site, r.pc = .clone site := by
      cases hpc' : r.pc with
      | clone site => exact ⟨site, rfl⟩
      | _ =>
        rw [hpc'] at hpc
        cases hpc
    rcases senderStep_cases hs with ⟨val', -, rfl⟩ | ⟨_, hno, -⟩ | ⟨_, hno, -⟩ | ⟨_, hno, -⟩
    · exact ⟨k, r, site, hr, hpc, .inl (Nat.lt_succ_of_le (ht.rx k r hr).loaded_le)⟩
    all_goals
      rw [hval] at hno
      cases hno
  | receiver k =>
    simp only [Quiet, not_forall] at hnot
    obtain ⟨r, hr, hpc, hle⟩ := hnot
    obtain ⟨x, r', hx, hstep, -, hrx⟩ := step_receiver hs
    rw [hr] at hx
    cases hx
    have hseen : r.seen = c.shared.version :=
      Nat.le_antisymm (ht.rx k r hr).seen_le (Nat.not_lt.mp hle)
    rcases Receiver.step_load hpc hstep with ⟨hsite, -⟩ | ⟨-, rfl⟩
    · exact absurd rfl hsite
    · refine ⟨k, _, .woken, by rw [hrx, Channel.setRx_rx, if_pos rfl], rfl, .inr ?_⟩
      rw [(Receiver.step_published hstep).1]
      exact hseen
  | _ => exact absurd trivial hnot

theorem not_always_of_doomed (hd : c.Doomed k) (ht : c.Traced) (hrun : run step c as = some c')
    (hend : ∀ k r, c'.rx k = some r → r.pc.cloning = false) : ¬Always step Channel.Ordered c as := by
  induction as generalizing c with
  | nil =>
    cases hrun
    obtain ⟨r, site, hr, hpc, -⟩ := hd
    have hno := hend k r hr
    rw [hpc] at hno
    cases hno
  | cons a as ih =>
    obtain ⟨u, hu, hrest⟩ := run_cons_iff.mp hrun
    intro halways
    by_cases ha : a = .receiver k
    · subst ha
      exact not_ordered_of_doomed_clone hd ht hu (halways.2 u hu).head
    · exact ih (hd.kept ht hu ha) (ht.kept hu) hrest (halways.2 u hu)

theorem along_quiet_of_always (ht : c.Traced) (hrun : run step c as = some c')
    (hend : ∀ k r, c'.rx k = some r → r.pc.cloning = false) (h : Always step Channel.Ordered c as) :
    Along step Quiet c as := by
  induction as generalizing c with
  | nil => trivial
  | cons a as ih =>
    obtain ⟨u, hu, hrest⟩ := run_cons_iff.mp hrun
    refine ⟨?_, fun t hut => ?_⟩
    · by_contra hnot
      obtain ⟨k, hd⟩ := doomed_of_not_quiet ht hu hnot
      exact not_always_of_doomed hd (ht.kept hu) hrest hend (h.2 u hu)
    · rw [hu] at hut
      cases hut
      exact ih (ht.kept hu) hrest (h.2 u hu)

/-- Quiet runs deliver in order, each value with its own id; and a run that leaves no receiver between
    load and clone does so only when it is quiet. -/
theorem always_ordered_iff {init : α} (hrun : run step (channel init) as = some c) :
    (Along step Quiet (channel init) as → Always step Channel.Ordered (channel init) as) ∧
    ((∀ k r, c.rx k = some r → r.pc.cloning = false) →
      (Always step Channel.Ordered (channel init) as ↔ Along step Quiet (channel init) as)) := by
  have hquiet : Along step Quiet (channel init) as → Always step Channel.Ordered (channel init) as := by
    intro h
    refine h.always (I := fun c => c.Traced ∧ c.Settled) ⟨channel_traced init, channel_settled init⟩
      (fun s t a hI hq hs => ⟨hI.1.kept hs, hI.2.kept hI.1 hq hs⟩) fun s hI k r hr => (hI.2 k r hr).ordered
  exact ⟨hquiet, fun hend => ⟨along_quiet_of_always (channel_traced init) hrun hend, hquiet⟩⟩

/-- A poll, and then a send. -/
theorem always_ordered_poll_send : ∃ c : Channel Nat,
    run step (channel 7) [.getChanged 0, .receiver 0, .receiver 0, .receiver 0, .send 8, .sender] = some c ∧
    Always step Channel.Ordered (channel 7)
      [.getChanged 0, .receiver 0, .receiver 0, .receiver 0, .send 8, .sender] := by
  refine ⟨_, rfl, ((always_ordered_iff rfl).2 ?_).mpr ?_⟩
  · intro k r hr
    rcases k with _ | k
    · cases hr
      rfl
    · cases hr
  · refine .cons trivial rfl (.cons ?_ rfl (.cons ?_ rfl (.cons ?_ rfl (.cons trivial rfl (.cons ?_ rfl trivial)))))
    · rintro _ ⟨⟩ ⟨⟩
    · rintro _ ⟨⟩ ⟨⟩
    · rintro _ ⟨⟩ ⟨⟩
    · rintro val - k r hr
      rcases k with _ | k
      · cases hr
        rfl
      · cases hr

/-- A send between load and clone: the value comes with the old id, and a second time with its own. -/
def sendDuringPoll : List (Action Nat) :=
  [.getChanged 0, .receiver 0, .receiver 0, .send 8, .sender, .receiver 0, .sender, .sender, .sender,
   .getChanged 0, .receiver 0, .receiver 0, .receiver 0]

/-- A receiver takes a new value and goes to wait before the sender's `notify_all`, which wakes it for
    the value it has. -/
def notifiedLate : List (Action Nat) :=
  [.getChanged 0, .receiver 0, .receiver 0, .receiver 0, .send 8, .sender,
   .getChanged 0, .receiver 0, .receiver 0, .receiver 0,
   .waitForChange 0, .receiver 0, .receiver 0, .receiver 0, .receiver 0, .receiver 0, .receiver 0,
   .sender, .sender, .sender, .receiver 0, .receiver 0, .receiver 0, .receiver 0, .receiver 0]

theorem delivered_twice :
    (∃ c r, run step (channel 7) sendDuringPoll = some c ∧ c.rx 0 = some r ∧
      r.history = [⟨8, 2, 2⟩, ⟨8, 2, 1⟩]) ∧
    (∃ c r, run step (channel 7) notifiedLate = some c ∧ c.rx 0 = some r ∧
      r.history = [⟨8, 2, 2⟩, ⟨8, 2, 2⟩, ⟨7, 1, 1⟩]) ∧
    ¬∀ (as : List (Action Nat)) (c : Channel Nat), (∀ k, .spurious k ∉ as) →
      run step (channel 7) as = some c → ∀ r, c.rx 0 = some r → r.Ordered := by
  refine ⟨⟨_, _, rfl, rfl, rfl⟩, ⟨_, _, rfl, rfl, rfl⟩, fun h => ?_⟩
  have hord := h sendDuringPoll _ (by simp [sendDuringPoll]) rfl _ rfl
  exact absurd (hord.own_id ⟨8, 2, 1⟩ (List.mem_cons_of_mem _ List.mem_cons_self)) (by decide)

end Delivery
end CryptixMiner.Watch
