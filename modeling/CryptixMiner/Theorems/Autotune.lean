import CryptixMiner.Plugin.Autotune

/-! The limits that the autotuner sets. Each iteration leaves the device at the limit that the tuner tracks, climbs
    within the bounds and drops to the floor or by a step, so that only the limit of the start can be out of bounds. -/

namespace CryptixMiner.Autotune
open StepSystem

/-! ### Integers -/

instance lawfulOrderSup : Std.LawfulOrderSup UInt32 where
  max_le_iff a b c := by
    have hmax : max a b = if a ≤ b then b else a := rfl
    rw [hmax]
    split <;> simp only [UInt32.le_iff_toNat_le] at * <;> omega

instance lawfulOrderInf : Std.LawfulOrderInf UInt32 where
  le_min_iff a b c := by
    have hmin : min b c = if b ≤ c then b else c := rfl
    rw [hmin]
    split <;> simp only [UInt32.le_iff_toNat_le] at * <;> omega

theorem saturatingSub_le (a b : UInt32) : saturatingSub a b ≤ a := by
  unfold saturatingSub
  split
  · next h => exact UInt32.sub_le h
  · exact UInt32.le_iff_toNat_le.mpr (Nat.zero_le _)

theorem toNat_asU32 {n : Nat} (h : n < 0x100000000) : (asU32 n).toNat = n := by
  have hmod : ((n : Int) % 0x100000000).toNat = n := by omega
  rw [asU32, hmod, UInt32.toNat_ofNat', Nat.mod_eq_of_lt h]

theorem clamp_eq_natCast {i : Int} {lo hi : Nat} (h : lo ≤ hi) : ∃ n : Nat, clamp i lo hi = n ∧ lo ≤ n ∧ n ≤ hi := by
  unfold clamp
  split
  · exact ⟨lo, rfl, Nat.le_refl _, h⟩
  · split
    · exact ⟨hi, rfl, h, Nat.le_refl _⟩
    · exact ⟨i.toNat, by omega, by omega, by omega⟩

/-! ### Samples -/

/-- A sample that is kept is found, as no time stamp of one is 0. -/
theorem AutotuneShared.latest_recordSample {hashes elapsedSecs : Float} (h : ¬(elapsedSecs ≤ 0 ∨ hashes ≤ 0))
    (shared : AutotuneShared) (elapsed now : Duration) :
    ((shared.recordSample hashes elapsedSecs elapsed).latest now).isSome = true := by
  have hpos : ∀ ms : UInt64, max ms 1 ≠ 0 := by
    intro ms
    have hmax : max ms 1 = if ms ≤ 1 then 1 else ms := rfl
    rw [hmax]
    split
    · decide
    · next hgt =>
      rintro rfl
      exact hgt (by decide)
  have hstamp : (shared.recordSample hashes elapsedSecs elapsed).lastSampleMs ≠ 0 := by
    rw [recordSample, if_neg h]
    exact hpos _
  rw [latest, if_neg hstamp]
  rfl

/-! ### The limit in force -/

/-- A call that succeeds puts its limit in force. -/
def DeviceCall.after (limit : UInt32) : DeviceCall → UInt32
  | .setPowerManagementLimit limitMw (.ok ()) => limitMw
  | _ => limit

def inForce (limit : UInt32) (calls : List DeviceCall) : UInt32 := calls.foldl DeviceCall.after limit

theorem inForce_append (limit : UInt32) (calls calls' : List DeviceCall) :
    inForce limit (calls ++ calls') = inForce (inForce limit calls) calls' := List.foldl_append

/-- A limit in force is that of the start or has been set. -/
theorem inForce_mem (calls : List DeviceCall) : ∀ limit, inForce limit calls = limit ∨
    .setPowerManagementLimit (inForce limit calls) (.ok ()) ∈ calls := by
  induction calls with
  | nil => exact fun limit => Or.inl rfl
  | cons call calls ih =>
    intro limit
    have hstep : inForce limit (call :: calls) = inForce (call.after limit) calls := rfl
    rw [hstep]
    rcases ih (call.after limit) with heq | hmem
    · rw [heq]
      match call with
      | .setPowerManagementLimit limitMw (.ok ()) => exact Or.inr (List.mem_cons_self ..)
      | .setPowerManagementLimit _ (.error _) | .temperature _ | .powerUsage _ => exact Or.inl rfl
    · exact Or.inr (List.mem_cons_of_mem _ hmem)

/-- A call other than one that sets a limit, and not a reading that is too hot. -/
def Quiet (config : AutotuneConfig) : DeviceCall → Prop
  | .temperature (.ok tempC) => tempC < config.maxTempC
  | .setPowerManagementLimit .. => False
  | _ => True

/-- A temperature that the device replied with is at or above the maximum. -/
def Hot (config : AutotuneConfig) (calls : List DeviceCall) : Prop :=
  ∃ tempC, .temperature (.ok tempC) ∈ calls ∧ config.maxTempC ≤ tempC

theorem inForce_of_quiet {config : AutotuneConfig} {calls : List DeviceCall} (h : ∀ call ∈ calls, Quiet config call)
    (limit : UInt32) : inForce limit calls = limit := by
  rcases inForce_mem calls limit with heq | hmem
  · exact heq
  · exact (h _ hmem).elim

/-! ### An iteration -/

namespace Tuner
variable {config : AutotuneConfig} {s : Tuner} {tick : Tick} {limitMw : UInt32} {reply : Except NvmlError Unit}

theorem clamped_mem (h : s.hardMinMw ≤ s.hardMaxMw) : s.hardMinMw ≤ s.clamped ∧ s.clamped ≤ s.hardMaxMw := by
  obtain ⟨n, hn, hlo, hhi⟩ := clamp_eq_natCast (i := (s.currentLimitMw.toNat : Int) + s.direction)
    (UInt32.le_iff_toNat_le.mp h)
  have hlt : n < 0x100000000 := Nat.lt_of_le_of_lt hhi s.hardMaxMw.toNat_lt
  have hclamped : s.clamped.toNat = n := by
    rw [clamped, hn, toNat_asU32 hlt]
  rw [UInt32.le_iff_toNat_le, UInt32.le_iff_toNat_le, hclamped]
  exact ⟨hlo, hhi⟩

/-- The three constants of the loop. -/
def SameBounds (s t : Tuner) : Prop :=
  t.hardMinMw = s.hardMinMw ∧ t.hardMaxMw = s.hardMaxMw ∧ t.stepMw = s.stepMw

/-- A climb asks for a limit within the bounds, or for none. -/
theorem hillClimb_cases (s : Tuner) (hashrate : Float) (powerMw : UInt32) (applied : Except NvmlError Unit) :
    ∃ t, SameBounds s t ∧
      ((s.hillClimb hashrate powerMw applied = (t, []) ∧ t.currentLimitMw = s.currentLimitMw) ∨
        ∃ limitMw, s.hillClimb hashrate powerMw applied = (t, [.setPowerManagementLimit limitMw applied]) ∧
          t.currentLimitMw = (DeviceCall.setPowerManagementLimit limitMw applied).after s.currentLimitMw ∧
          (s.hardMinMw ≤ s.hardMaxMw → s.hardMinMw ≤ limitMw ∧ limitMw ≤ s.hardMaxMw)) := by
  unfold hillClimb
  dsimp only
  split
  · refine ⟨_, ?_, Or.inl ⟨rfl, rfl⟩⟩
    exact ⟨rfl, rfl, rfl⟩
  · next hne =>
    have hmem := clamped_mem (s := s.scored (hashrate / (powerMw.toFloat / 1000)))
    cases applied with
    | ok u =>
      refine ⟨_, ?_, Or.inr ⟨_, rfl, rfl, hmem⟩⟩
      exact ⟨rfl, rfl, rfl⟩
    | error e =>
      refine ⟨_, ?_, Or.inr ⟨_, rfl, rfl, hmem⟩⟩
      exact ⟨rfl, rfl, rfl⟩

/-- The override asks for the safe limit. -/
theorem safetyOverride_cases (s : Tuner) (applied : Except NvmlError Unit) :
    ∃ t, SameBounds s t ∧
      s.safetyOverride applied = (t, [.setPowerManagementLimit s.safeLimit applied]) ∧
      t.currentLimitMw = (DeviceCall.setPowerManagementLimit s.safeLimit applied).after s.currentLimitMw := by
  cases applied with
  | ok u =>
    refine ⟨_, ?_, rfl, rfl⟩
    exact ⟨rfl, rfl, rfl⟩
  | error e =>
    refine ⟨_, ?_, rfl, rfl⟩
    exact ⟨rfl, rfl, rfl⟩

/-- An iteration sets no limit, obeys the temperature or climbs. -/
theorem iterate_cases (config : AutotuneConfig) (s : Tuner) (tick : Tick) :
    (∃ running calls, s.iterate config tick = ({ s with running := running }, calls) ∧
      ∀ call ∈ calls, Quiet config call) ∨
    (∃ tempC, config.maxTempC ≤ tempC ∧ s.iterate config tick =
      ((s.safetyOverride tick.applied).1, .temperature (.ok tempC) :: (s.safetyOverride tick.applied).2)) ∨
    (∃ tempC powerMw hashrate, tempC < config.maxTempC ∧ s.iterate config tick =
      ((s.hillClimb hashrate powerMw tick.applied).1,
        .temperature (.ok tempC) :: .powerUsage (.ok powerMw) :: (s.hillClimb hashrate powerMw tick.applied).2)) := by
  unfold iterate
  split
  · exact Or.inl ⟨false, [], rfl, nofun⟩
  · exact Or.inl ⟨false, [], rfl, nofun⟩
  · split
    · exact Or.inl ⟨s.running, [], rfl, nofun⟩
    · split
      · exact Or.inl ⟨s.running, [], rfl, nofun⟩
      · split
        · next e _ => exact Or.inl ⟨s.running, _, rfl, by simp [Quiet]⟩
        · next hashrate _ _ _ _ tempC _ =>
          unfold act
          split
          · next hhot => exact Or.inr (Or.inl ⟨tempC, hhot, rfl⟩)
          · next hhot =>
            have hlt : tempC < config.maxTempC := UInt32.not_le.mp hhot
            split
            · exact Or.inl ⟨s.running, _, rfl, by simp [Quiet, hlt]⟩
            · next powerMw _ =>
              split
              · exact Or.inl ⟨s.running, _, rfl, by simp [Quiet, hlt]⟩
              · exact Or.inr (Or.inr ⟨tempC, powerMw, hashrate, hlt, rfl⟩)

/-- The limit that the tuner tracks stays that of the device, and the constants stay. -/
theorem iterate_tracks (config : AutotuneConfig) (s : Tuner) (tick : Tick) :
    SameBounds s (s.iterate config tick).1 ∧
      (s.iterate config tick).1.currentLimitMw = inForce s.currentLimitMw (s.iterate config tick).2 := by
  rcases iterate_cases config s tick with ⟨running, calls, heq, hquiet⟩ | ⟨tempC, -, heq⟩ |
    ⟨tempC, powerMw, hashrate, -, heq⟩
  · rw [heq]
    exact ⟨⟨rfl, rfl, rfl⟩, (inForce_of_quiet hquiet _).symm⟩
  · obtain ⟨t, hsame, hov, hcur⟩ := safetyOverride_cases s tick.applied
    rw [heq, hov]
    exact ⟨hsame, hcur⟩
  · obtain ⟨t, hsame, ⟨hclimb, hcur⟩ | ⟨limitMw, hclimb, hcur, -⟩⟩ := hillClimb_cases s hashrate powerMw tick.applied
    · rw [heq, hclimb]
      exact ⟨hsame, hcur⟩
    · rw [heq, hclimb]
      exact ⟨hsame, hcur⟩

/-- A limit that an iteration sets. -/
theorem mem_iterate (hle : s.hardMinMw ≤ s.hardMaxMw)
    (h : .setPowerManagementLimit limitMw reply ∈ (s.iterate config tick).2) :
    limitMw = s.safeLimit ∨ s.hardMinMw ≤ limitMw ∧ limitMw ≤ s.hardMaxMw := by
  rcases iterate_cases config s tick with ⟨running, calls, heq, hquiet⟩ | ⟨tempC, -, heq⟩ |
    ⟨tempC, powerMw, hashrate, -, heq⟩
  · rw [heq] at h
    exact (hquiet _ h).elim
  · obtain ⟨t, -, hov, -⟩ := safetyOverride_cases s tick.applied
    rw [heq, hov] at h
    simp only [List.mem_cons, reduceCtorEq, DeviceCall.setPowerManagementLimit.injEq, List.not_mem_nil, or_false,
      false_or] at h
    exact Or.inl h.1
  · obtain ⟨t, -, ⟨hclimb, -⟩ | ⟨aim, hclimb, -, hmem⟩⟩ := hillClimb_cases s hashrate powerMw tick.applied
    · rw [heq, hclimb] at h
      simp only [List.mem_cons, reduceCtorEq, List.not_mem_nil, or_false] at h
    · rw [heq, hclimb] at h
      simp only [List.mem_cons, reduceCtorEq, DeviceCall.setPowerManagementLimit.injEq, List.not_mem_nil, or_false,
        false_or] at h
      rw [h.1]
      exact Or.inr (hmem hle)

/-- A hot iteration is the safety override, and nothing else. -/
theorem iterate_of_hot (h : Hot config (s.iterate config tick).2) : ∃ tempC, s.iterate config tick =
    ((s.safetyOverride tick.applied).1, .temperature (.ok tempC) :: (s.safetyOverride tick.applied).2) := by
  obtain ⟨hot, hmem, hle⟩ := h
  rcases iterate_cases config s tick with ⟨running, calls, heq, hquiet⟩ | ⟨tempC, -, heq⟩ |
    ⟨tempC, powerMw, hashrate, hlt, heq⟩
  · rw [heq] at hmem
    exact absurd hle (UInt32.not_le.mpr (hquiet _ hmem))
  · exact ⟨tempC, heq⟩
  · have hcold : hot = tempC := by
      obtain ⟨t, -, ⟨hclimb, -⟩ | ⟨aim, hclimb, -, -⟩⟩ := hillClimb_cases s hashrate powerMw tick.applied
      · simpa [heq, hclimb] using hmem
      · simpa [heq, hclimb] using hmem
    rw [hcold] at hle
    exact absurd hle (UInt32.not_le.mpr hlt)

end Tuner

/-! ### Runs -/

theorem Tuner.setUp_eq_some_iff {config : AutotuneConfig} {init deviceByIndex : Except NvmlError Unit}
    {constraints : Except NvmlError PowerManagementConstraints} {limit : Except NvmlError UInt32} {s : Tuner} :
    setUp config init deviceByIndex constraints limit = some s ↔
      init = .ok () ∧ deviceByIndex = .ok () ∧ ∃ c l, constraints = .ok c ∧ limit = .ok l ∧
        Autotune.hardMinMw config c < Autotune.hardMaxMw config c ∧ s = start config c l := by
  constructor
  · intro h
    unfold setUp at h
    split at h
    · next c l =>
      split at h
      · cases h
      · next hlt => exact ⟨rfl, rfl, c, l, rfl, rfl, UInt32.not_le.mp hlt, (Option.some.inj h).symm⟩
    · cases h
  · rintro ⟨rfl, rfl, c, l, rfl, rfl, hlt, rfl⟩
    exact if_neg (UInt32.not_le.mpr hlt)

section
variable {config : AutotuneConfig} {constraints : PowerManagementConstraints} {limit : UInt32} {s t : Autotuner}
  {tick : Tick} {ticks : List Tick}

/-- The tuner has the constants of its configuration and tracks the limit in force. -/
structure Tracks (config : AutotuneConfig) (constraints : PowerManagementConstraints) (limit : UInt32)
    (s : Autotuner) : Prop where
  hardMinMw : s.tuner.hardMinMw = hardMinMw config constraints
  hardMaxMw : s.tuner.hardMaxMw = hardMaxMw config constraints
  stepMw : s.tuner.stepMw = stepMw config
  currentLimitMw : s.tuner.currentLimitMw = inForce limit s.calls

theorem Tracks.start : Tracks config constraints limit (.start config constraints limit) := ⟨rfl, rfl, rfl, rfl⟩

theorem step_eq_some (h : s.step config tick = some t) :
    t = ⟨(s.tuner.iterate config tick).1, s.calls ++ (s.tuner.iterate config tick).2⟩ := by
  unfold Autotuner.step at h
  split at h
  · exact (Option.some.inj h).symm
  · cases h

theorem Tracks.step (hinv : Tracks config constraints limit s) (h : s.step config tick = some t) :
    Tracks config constraints limit t := by
  rw [step_eq_some h]
  obtain ⟨⟨hmin, hmax, hstep⟩, hcur⟩ := s.tuner.iterate_tracks config tick
  refine ⟨hmin.trans hinv.hardMinMw, hmax.trans hinv.hardMaxMw, hstep.trans hinv.stepMw, ?_⟩
  rw [inForce_append, ← hinv.currentLimitMw]
  exact hcur

theorem tracks_of_run (h : run (Autotuner.step config) (.start config constraints limit) ticks = some s) :
    Tracks config constraints limit s :=
  (Reachable.of_run ticks h).inv .start fun _ _ _ hinv _ hstep => hinv.step hstep

/-- A property of the limits within the bounds that the override keeps holds of every limit that is set. -/
theorem run_sets {P : UInt32 → Prop} (hlt : hardMinMw config constraints < hardMaxMw config constraints)
    (hbounds : ∀ v, hardMinMw config constraints ≤ v → v ≤ hardMaxMw config constraints → P v)
    (hsafe : ∀ v, v = limit ∨ P v → P (max (hardMinMw config constraints) (saturatingSub v (asU32 (stepMw config)))))
    (hrun : run (Autotuner.step config) (.start config constraints limit) ticks = some s) {limitMw : UInt32}
    {reply : Except NvmlError Unit} (hset : .setPowerManagementLimit limitMw reply ∈ s.calls) : P limitMw := by
  have hinv := (Reachable.of_run ticks hrun).inv
    (I := fun s => Tracks config constraints limit s ∧
      ∀ limitMw reply, .setPowerManagementLimit limitMw reply ∈ s.calls → P limitMw) ⟨.start, nofun⟩ ?_
  · exact hinv.2 limitMw reply hset
  · rintro s t tick ⟨htracks, hsets⟩ - hstep
    refine ⟨htracks.step hstep, fun v reply hv => ?_⟩
    rw [step_eq_some hstep] at hv
    rcases List.mem_append.mp hv with hold | hnew
    · exact hsets v reply hold
    · have hle : s.tuner.hardMinMw ≤ s.tuner.hardMaxMw := by
        rw [htracks.hardMinMw, htracks.hardMaxMw]
        exact UInt32.le_of_lt hlt
      rcases Tuner.mem_iterate hle hnew with hsafeLimit | ⟨hmin, hmax⟩
      · rw [hsafeLimit, Tuner.safeLimit, htracks.hardMinMw, htracks.stepMw, htracks.currentLimitMw]
        apply hsafe
        rcases inForce_mem s.calls limit with heq | hmem
        · exact Or.inl heq
        · exact Or.inr (hsets _ _ hmem)
      · exact hbounds v (htracks.hardMinMw ▸ hmin) (htracks.hardMaxMw ▸ hmax)

/-- A tick at which the device is at the maximum temperature and does what it is asked. -/
def hotTick (config : AutotuneConfig) : Tick where
  shutdown := .error .timeout
  shared := ⟨0, 1⟩
  elapsed := 0
  temperature := .ok config.maxTempC
  powerUsage := .error .mk
  applied := .ok ()

theorem iterate_hotTick (config : AutotuneConfig) (s : Tuner) : s.iterate config (hotTick config) =
    ((s.safetyOverride (.ok ())).1,
      [.temperature (.ok config.maxTempC), .setPowerManagementLimit s.safeLimit (.ok ())]) := by
  have hlatest : (hotTick config).shared.latest (hotTick config).elapsed = some (Float.ofBits 0, 0) := by
    simp [AutotuneShared.latest, hotTick]
  have hact : ∀ hashrate, s.act config hashrate config.maxTempC (hotTick config) = s.safetyOverride (.ok ()) :=
    fun hashrate => if_pos (UInt32.le_refl _)
  have htemperature : (hotTick config).temperature = .ok config.maxTempC := rfl
  have hshutdown : (hotTick config).shutdown = .error .timeout := rfl
  simp only [Tuner.iterate, hlatest, htemperature, hshutdown, gt_iff_lt, Nat.not_lt_zero, if_false, hact]
  rfl

/-! ### The bounds -/

/-- Every limit that these calls ask for is from `lo` to `hi`. -/
def SetsWithin (lo hi : UInt32) (calls : List DeviceCall) : Prop :=
  ∀ limitMw reply, .setPowerManagementLimit limitMw reply ∈ calls → lo ≤ limitMw ∧ limitMw ≤ hi

theorem setsWithin_of_start_le (hlt : hardMinMw config constraints < hardMaxMw config constraints)
    (hlimit : saturatingSub limit (asU32 (stepMw config)) ≤ hardMaxMw config constraints)
    (hrun : run (Autotuner.step config) (.start config constraints limit) ticks = some s) :
    SetsWithin (hardMinMw config constraints) (hardMaxMw config constraints) s.calls := by
  intro limitMw reply hset
  refine run_sets (P := fun v => hardMinMw config constraints ≤ v ∧ v ≤ hardMaxMw config constraints) hlt
    (fun v hmin hmax => ⟨hmin, hmax⟩) (fun v hv => ?_) hrun hset
  have hstep : saturatingSub v (asU32 (stepMw config)) ≤ hardMaxMw config constraints := by
    rcases hv with rfl | ⟨-, hmax⟩
    · exact hlimit
    · exact UInt32.le_trans (saturatingSub_le _ _) hmax
  exact ⟨Std.left_le_max, Std.max_le_iff.mpr ⟨UInt32.le_of_lt hlt, hstep⟩⟩

/-- With a static limit and no ceiling of its own, a tuner whose device starts at or below the static limit never goes
    above it. -/
theorem le_static_limit {overclock : OverClock} {i : Nat} {w : UInt32}
    (hbuild : buildAutotuneSetting overclock i = some config)
    (hceiling : pickIndexed overclock.cudaAutotuneMaxPowerWatts i = none)
    (hstatic : pickIndexed overclock.cudaPowerLimits i = some w) (hle : limit ≤ w * 1000)
    (hmax : limit ≤ constraints.maxLimit) (hlt : hardMinMw config constraints < hardMaxMw config constraints)
    (hrun : run (Autotuner.step config) (.start config constraints limit) ticks = some s) {limitMw : UInt32}
    {reply : Except NvmlError Unit} (hset : .setPowerManagementLimit limitMw reply ∈ s.calls) : limitMw ≤ w * 1000 := by
  have hconfig : config.maxPowerW = some w := by
    unfold buildAutotuneSetting at hbuild
    split at hbuild
    · cases hbuild
    · rw [hceiling, hstatic] at hbuild
      cases hbuild
      rfl
  have hhard : hardMaxMw config constraints = min (w * 1000) constraints.maxLimit := by
    rw [hardMaxMw, hconfig]
    rfl
  have hstart : saturatingSub limit (asU32 (stepMw config)) ≤ hardMaxMw config constraints := by
    rw [hhard]
    exact UInt32.le_trans (saturatingSub_le _ _) (Std.le_min_iff.mpr ⟨hle, hmax⟩)
  have hwithin := (setsWithin_of_start_le hlt hstart hrun limitMw reply hset).2
  rw [hhard] at hwithin
  exact UInt32.le_trans hwithin Std.min_le_left

/-- From a start the override is one tick away. -/
theorem run_hotTick (config : AutotuneConfig) (constraints : PowerManagementConstraints) (limit : UInt32) :
    run (Autotuner.step config) (.start config constraints limit) [hotTick config] =
      some ⟨((Tuner.start config constraints limit).safetyOverride (.ok ())).1,
        [.temperature (.ok config.maxTempC),
          .setPowerManagementLimit (Tuner.start config constraints limit).safeLimit (.ok ())]⟩ := by
  have hstep : Autotuner.step config (.start config constraints limit) (hotTick config) = some ⟨_, [] ++ _⟩ :=
    if_pos rfl
  rw [run, hstep, Autotuner.start, iterate_hotTick]
  rfl

end

/-- Every run stays within the bounds just when the limit of the start is at most a step above the ceiling. -/
theorem setsWithin_iff (config : AutotuneConfig) (constraints : PowerManagementConstraints) (limit : UInt32)
    (hlt : hardMinMw config constraints < hardMaxMw config constraints) :
    (∀ ticks s, run (Autotuner.step config) (.start config constraints limit) ticks = some s →
      SetsWithin (hardMinMw config constraints) (hardMaxMw config constraints) s.calls) ↔
      saturatingSub limit (asU32 (stepMw config)) ≤ hardMaxMw config constraints := by
  constructor
  · intro h
    have hset := h _ _ (run_hotTick config constraints limit) _ _ (List.mem_cons_of_mem _ (List.mem_singleton_self _))
    exact UInt32.le_trans Std.right_le_max hset.2
  · intro hlimit ticks s hrun
    exact setsWithin_of_start_le hlt hlimit hrun

/-- A device at 300 W whose ceiling is 200 W. -/
def ceilingConfig : AutotuneConfig := ⟨15, 10, none, some 200, 83⟩

theorem setsWithin_iff_ceiling :
    ¬∀ ticks s, run (Autotuner.step ceilingConfig) (.start ceilingConfig ⟨100000, 300000⟩ 300000) ticks = some s →
      SetsWithin 100000 200000 s.calls :=
  fun h => absurd ((setsWithin_iff ceilingConfig ⟨100000, 300000⟩ 300000 (by decide)).mp h) (by decide)

theorem not_setsWithin : ¬∀ (config : AutotuneConfig) (constraints : PowerManagementConstraints) (limit : UInt32),
    hardMinMw config constraints < hardMaxMw config constraints →
      ∀ ticks s, run (Autotuner.step config) (.start config constraints limit) ticks = some s →
        SetsWithin (hardMinMw config constraints) (hardMaxMw config constraints) s.calls := by
  intro h
  have hset := h ceilingConfig ⟨100000, 300000⟩ 300000 (by decide) _ _ (run_hotTick _ _ _) 290000 (.ok ())
    (List.mem_cons_of_mem _ (List.mem_singleton_self _))
  exact absurd hset.2 (by decide)

/-! ### The temperature -/

/-- An iteration that asks for no limit above the one in force, and is no step of the climb: that would read the
    power, score and perhaps turn. -/
structure CoolsDown (limit : UInt32) (s t : Tuner) (calls : List DeviceCall) : Prop where
  le : ∀ limitMw reply, .setPowerManagementLimit limitMw reply ∈ calls → limitMw ≤ limit
  noPowerUsage : ∀ reply, .powerUsage reply ∉ calls
  direction : t.direction = s.direction
  bestScore : t.bestScore = s.bestScore ∨ t.bestScore = none
  consecutiveErrors : t.consecutiveErrors = s.consecutiveErrors

theorem Tuner.safetyOverride_coolsDown {s : Tuner} (h : s.hardMinMw ≤ s.currentLimitMw) (tempC : UInt32)
    (applied : Except NvmlError Unit) :
    CoolsDown s.currentLimitMw s (s.safetyOverride applied).1
      (.temperature (.ok tempC) :: (s.safetyOverride applied).2) where
  le limitMw reply hset := by
    have hsafe : limitMw = s.safeLimit := by
      rcases List.mem_cons.mp hset with hhead | hmem
      · cases hhead
      · cases List.mem_singleton.mp hmem
        rfl
    rw [hsafe]
    exact Std.max_le_iff.mpr ⟨h, saturatingSub_le _ _⟩
  noPowerUsage reply hmem := by
    rcases List.mem_cons.mp hmem with hhead | hmem
    · cases hhead
    · cases List.mem_singleton.mp hmem
  direction := by cases applied <;> rfl
  bestScore := by
    cases applied with
    | ok u => exact Or.inr rfl
    | error e => exact Or.inl rfl
  consecutiveErrors := by cases applied <;> rfl

section
variable {config : AutotuneConfig} {constraints : PowerManagementConstraints} {limit : UInt32} {s : Autotuner}
  {tick : Tick} {ticks : List Tick}

/-- The limit in force is never below the floor, if that of the start is not. -/
theorem floor_le_inForce (hlt : hardMinMw config constraints < hardMaxMw config constraints)
    (hlimit : hardMinMw config constraints ≤ limit)
    (hrun : run (Autotuner.step config) (.start config constraints limit) ticks = some s) :
    hardMinMw config constraints ≤ inForce limit s.calls := by
  rcases inForce_mem s.calls limit with heq | hmem
  · rw [heq]
    exact hlimit
  · exact run_sets (P := fun v => hardMinMw config constraints ≤ v) hlt (fun v hmin _ => hmin)
      (fun v _ => Std.left_le_max) hrun hmem

theorem coolsDown_of_floor_le (hlt : hardMinMw config constraints < hardMaxMw config constraints)
    (hlimit : hardMinMw config constraints ≤ limit)
    (hrun : run (Autotuner.step config) (.start config constraints limit) ticks = some s)
    (hhot : Hot config (s.tuner.iterate config tick).2) :
    CoolsDown (inForce limit s.calls) s.tuner (s.tuner.iterate config tick).1 (s.tuner.iterate config tick).2 := by
  have htracks := tracks_of_run hrun
  have hfloor : s.tuner.hardMinMw ≤ s.tuner.currentLimitMw := by
    rw [htracks.hardMinMw, htracks.currentLimitMw]
    exact floor_le_inForce hlt hlimit hrun
  obtain ⟨tempC, heq⟩ := Tuner.iterate_of_hot hhot
  rw [heq, ← htracks.currentLimitMw]
  exact Tuner.safetyOverride_coolsDown hfloor tempC tick.applied

/-- A first iteration that is hot sets no limit below the floor. -/
theorem floor_le_of_coolsDown
    (h : Hot config ((Tuner.start config constraints limit).iterate config (hotTick config)).2 →
      CoolsDown limit (.start config constraints limit)
        ((Tuner.start config constraints limit).iterate config (hotTick config)).1
        ((Tuner.start config constraints limit).iterate config (hotTick config)).2) :
    hardMinMw config constraints ≤ limit := by
  rw [iterate_hotTick] at h
  have hcool := h ⟨config.maxTempC, List.mem_cons_self .., UInt32.le_refl _⟩
  have hle := hcool.le _ _ (List.mem_cons_of_mem _ (List.mem_singleton_self _))
  exact UInt32.le_trans Std.left_le_max hle

end

/-- Every hot iteration of every run cools down just when the limit of the start is not below the floor. -/
theorem coolsDown_iff (config : AutotuneConfig) (constraints : PowerManagementConstraints) (limit : UInt32)
    (hlt : hardMinMw config constraints < hardMaxMw config constraints) :
    (∀ ticks s tick, run (Autotuner.step config) (.start config constraints limit) ticks = some s →
      s.tuner.running = true → Hot config (s.tuner.iterate config tick).2 →
        CoolsDown (inForce limit s.calls) s.tuner (s.tuner.iterate config tick).1 (s.tuner.iterate config tick).2) ↔
      hardMinMw config constraints ≤ limit := by
  constructor
  · intro h
    have hcool := h [] (.start config constraints limit) (hotTick config) rfl rfl
    exact floor_le_of_coolsDown hcool
  · intro hlimit ticks s tick hrun _ hhot
    exact coolsDown_of_floor_le hlt hlimit hrun hhot

/-- A device at 120 W whose floor is 150 W. -/
def floorConfig : AutotuneConfig := ⟨15, 10, some 150, none, 83⟩

theorem coolsDown_iff_floor :
    ¬∀ ticks s tick, run (Autotuner.step floorConfig) (.start floorConfig ⟨100000, 300000⟩ 120000) ticks = some s →
      s.tuner.running = true → Hot floorConfig (s.tuner.iterate floorConfig tick).2 →
        CoolsDown (inForce 120000 s.calls) s.tuner (s.tuner.iterate floorConfig tick).1
          (s.tuner.iterate floorConfig tick).2 :=
  fun h => absurd ((coolsDown_iff floorConfig ⟨100000, 300000⟩ 120000 (by decide)).mp h) (by decide)

theorem not_coolsDown : ¬∀ (config : AutotuneConfig) (constraints : PowerManagementConstraints) (limit : UInt32),
    hardMinMw config constraints < hardMaxMw config constraints →
      ∀ ticks s tick, run (Autotuner.step config) (.start config constraints limit) ticks = some s →
        s.tuner.running = true → Hot config (s.tuner.iterate config tick).2 →
          CoolsDown (inForce limit s.calls) s.tuner (s.tuner.iterate config tick).1
            (s.tuner.iterate config tick).2 := by
  intro h
  have hcool := h floorConfig ⟨100000, 300000⟩ 120000 (by decide) [] (.start _ _ _) (hotTick floorConfig) rfl rfl
  exact absurd (floor_le_of_coolsDown hcool) (by decide)

end CryptixMiner.Autotune
