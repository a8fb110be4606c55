import BifrostSocket.TimedLeaseDrivers

/-!
# How long a fail-over takes

A standby whose ticks meet no failure looks at the lease once per retry period. While it waits it
leads, or the stored lease ran out at most one retry period ago: with the default timing a silent
leader is replaced after 17 seconds. As everywhere over `TimedLeaseDrivers`, ticks take no time and
waits are exact; a slow request comes on top.
-/

namespace BifrostSocket.FailoverBounds
open LeaseRecords LeaderElectors TransitionRuns InterleavedElectors TimedLeaseDrivers

section Ticks

variable {s : ElectorSettings} {now : ℚ} {e : LeaderElector} {b : InMemoryLeaseBackend}

theorem plan_standDown {observed : Option LeaseRecord} (h : Plan.of s now observed = .standDown) :
    ∃ r, observed = some r ∧ now ≤ r.renewTime + r.leaseDurationSec := by
  cases observed with
  | none => cases h
  | some r =>
    refine ⟨r, rfl, ?_⟩
    simp only [Plan.of] at h
    split at h
    · next hvalid =>
      have hexpired : ¬ r.isExpired now = true := by
        intro hexpired
        simp [hexpired] at hvalid
      rw [LeaseRecord.isExpired_iff] at hexpired
      exact not_lt.mp hexpired
    · split at h <;> cases h

theorem plan_create {observed : Option LeaseRecord} {fresh : LeaseRecord}
    (h : Plan.of s now observed = .create fresh) : observed = none := by
  cases observed with
  | none => rfl
  | some r =>
    simp only [Plan.of] at h
    split at h
    · cases h
    · split at h <;> cases h

/-- A tick without failures makes its elector the leader, or finds another's valid lease. -/
theorem undisturbed_tick :
    ((tryAcquireOrRenew s now .none .none e b).1.isSuccess = true ∧
        (tryAcquireOrRenew s now .none .none e b).2.1.isLeader = true) ∨
      ((tryAcquireOrRenew s now .none .none e b).1 = .heldByOther ∧
        (tryAcquireOrRenew s now .none .none e b).2.2 = b ∧
        ∃ r, b.record = some r ∧ now ≤ r.renewTime + r.leaseDurationSec) := by
  have hget : b.getWith .none = some b.get := rfl
  have hmark : ∀ acquired, (e.markLeader now acquired).1.isSuccess = true ∧
      (e.markLeader now acquired).2.isLeader = true :=
    fun acquired => ⟨e.markLeader_isSuccess now acquired, rfl⟩
  cases hplan : Plan.of s now b.get with
  | standDown =>
    right
    obtain ⟨r, hr, hvalid⟩ := plan_standDown hplan
    simp only [tryAcquireOrRenew, hget, hplan]
    exact ⟨rfl, rfl, r, hr, hvalid⟩
  | create fresh =>
    left
    have hempty : b.record = none := plan_create hplan
    have hdone : (Plan.create fresh).perform b .none = (true, (b.store fresh).2) := by
      simp [Plan.perform, InMemoryLeaseBackend.callWith, InMemoryLeaseBackend.create, hempty]
    simp only [tryAcquireOrRenew, hget, hplan, hdone]
    exact hmark true
  | update c acquired =>
    left
    obtain ⟨r, hr, hversion, -⟩ := Plan.of_update hplan
    have hstored : b.record = some r := hr
    have hdone : (Plan.update c acquired).perform b .none = (true, (b.store c).2) := by
      simp [Plan.perform, InMemoryLeaseBackend.callWith, InMemoryLeaseBackend.update, hstored,
        hversion]
    simp only [tryAcquireOrRenew, hget, hplan, hdone]
    exact hmark acquired

end Ticks

section Drivers

variable {ι : Type} {F : TimedFleet ι} {w w' : World ι} {i j : ι}

/-- The ticks of this elector meet no failure. -/
def Undisturbed (j : ι) (_ : World ι) : DriverEvent ι → Prop
  | .tick i getFault writeFault => i = j → getFault = .none ∧ writeFault = .none
  | .advance _ | .start _ | .stop _ => True

/-- The stored lease was still valid by the elector's clock when its last tick looked at it. -/
structure Looked (F : TimedFleet ι) (j : ι) (w : World ι) (tickAt : ℚ) : Prop where
  recent : tickAt ≤ w.time + (F.settings j).retryPeriodSec
  valid : ∃ r, w.backend.record = some r ∧
    tickAt - (F.settings j).retryPeriodSec + F.offset j ≤ r.renewTime + r.leaseDurationSec

/-- A driver that was started just now ticks before any time passes. -/
structure Awaits (F : TimedFleet ι) (j : ι) (w : World ι) : Prop where
  versioned : w.backend.Versioned
  due : ∀ n ∈ (w.drivers j).tickAt, w.time ≤ n
  acquiring : ∀ n, w.drivers j = .acquiring n → w.time = n ∨ Looked F j w n
  renewing : ∀ n, w.drivers j = .renewing n → (w.electors j).isLeader = true

theorem awaits_initial (h : InitialWorld w) : Awaits F j w := by
  obtain ⟨hb, -, hd⟩ := h
  refine ⟨?_, ?_, ?_, ?_⟩
  · rw [hb]
    exact InMemoryLeaseBackend.versioned_empty
  · simp [hd, Driver.tickAt]
  · simp [hd]
  · simp [hd]

theorem Awaits.advance (h : Awaits F j w) {t : ℚ} (ht : w.time ≤ t)
    (hnext : ∀ n ∈ (w.drivers j).tickAt, t ≤ n) : Awaits F j { w with time := t } := by
  refine ⟨h.versioned, hnext, fun n hn => ?_, h.renewing⟩
  have hle : t ≤ n := hnext n (by simp [show w.drivers j = .acquiring n from hn, Driver.tickAt])
  rcases h.acquiring n hn with heq | ⟨hrecent, hvalid⟩
  · exact .inl (le_antisymm hle (heq ▸ ht))
  · exact .inr ⟨hrecent.trans (add_le_add ht le_rfl), hvalid⟩

variable [DecidableEq ι]

theorem Awaits.setDriver (h : Awaits F j w) {d : Driver}
    (hd : i = j → d = .acquiring w.time ∨ d = .stopped) : Awaits F j (w.setDriver i d) := by
  by_cases hij : i = j
  · subst hij
    have hself : (w.setDriver i d).drivers i = d := Function.update_self ..
    refine ⟨h.versioned, ?_, fun n hn => ?_, fun n hn => ?_⟩
    · rw [hself]
      rcases hd rfl with rfl | rfl
      · intro n hn
        exact (Option.some.inj hn).le
      · exact nofun
    · rw [hself] at hn
      rcases hd rfl with rfl | rfl
      · exact .inl (Driver.acquiring.inj hn)
      · cases hn
    · rw [hself] at hn
      rcases hd rfl with rfl | rfl <;> cases hn
  · have hother : (w.setDriver i d).drivers j = w.drivers j :=
      Function.update_of_ne (Ne.symm hij) ..
    refine ⟨h.versioned, ?_, ?_, ?_⟩
    · rw [hother]
      exact h.due
    · rw [hother]
      exact fun n hn => (h.acquiring n hn).imp_right fun hlooked =>
        ⟨hlooked.recent, hlooked.valid⟩
    · rw [hother]
      exact h.renewing

/-- What another elector stores is newer than what this one last looked at. -/
theorem Looked.other_tick (hskew : F.skew ≤ (F.settings i).leaseDurationSec) {n : ℚ}
    (hb : w.backend.Versioned) (h : Looked F j w n) (f g : CallFault) :
    Looked F j (w.tick F i f g) n := by
  obtain ⟨hrecent, hvalid⟩ := h
  refine ⟨hrecent, ?_⟩
  rcases tick_backend (F.settings i) (w.time + F.offset i) f g (w.electors i) hb with
    hsame | ⟨r, hstore, -, hdur, hrenew, -⟩
  · rw [World.tick, hsame]
    exact hvalid
  · refine ⟨(w.backend.store r).1, by rw [World.tick, hstore]; rfl, ?_⟩
    have hclocks := F.skewed j i
    simp only [InMemoryLeaseBackend.store, hdur, hrenew]
    linarith

theorem tick_versioned (hb : w.backend.Versioned) (f g : CallFault) :
    (w.tick F i f g).backend.Versioned := by
  rcases tick_backend (F.settings i) (w.time + F.offset i) f g (w.electors i) hb with
    hsame | ⟨r, hstore, -⟩
  · rw [World.tick, hsame]
    exact hb
  · rw [World.tick, hstore]
    exact InMemoryLeaseBackend.versioned_store _ r

theorem Awaits.other_tick (h : Awaits F j w) (hij : i ≠ j)
    (hskew : F.skew ≤ (F.settings i).leaseDurationSec) (f g : CallFault) :
    Awaits F j (w.tick F i f g) := by
  have hdriver : (w.tick F i f g).drivers j = w.drivers j := by
    simp [World.tick, Function.update_of_ne (Ne.symm hij)]
  have helector : (w.tick F i f g).electors j = w.electors j := by
    simp [World.tick, Function.update_of_ne (Ne.symm hij)]
  refine ⟨tick_versioned h.versioned f g, ?_, fun n hn => ?_, ?_⟩
  · rw [hdriver]
    exact h.due
  · rw [hdriver] at hn
    exact (h.acquiring n hn).imp_right fun hlooked =>
      hlooked.other_tick hskew h.versioned f g
  · rw [hdriver, helector]
    exact h.renewing

/-- The elector's own tick, without failures: it leads, or it has looked just now. -/
theorem Awaits.own_tick (h : Awaits F j w) (hj : (w.drivers j).tickAt = some w.time) :
    Awaits F j (w.tick F j .none .none) := by
  have hwait := F.waits j
  have hversioned := @tick_versioned _ F w j _ h.versioned .none .none
  have hdriver : (w.tick F j .none .none).drivers j = (afterTick (F.settings j) w.time
      (w.time + F.offset j) (tryAcquireOrRenew (F.settings j) (w.time + F.offset j) .none .none
        (w.electors j) w.backend).1 (tryAcquireOrRenew (F.settings j) (w.time + F.offset j) .none
        .none (w.electors j) w.backend).2.1 (w.drivers j)).1 := by simp [World.tick]
  have helector : (w.tick F j .none .none).electors j = (afterTick (F.settings j) w.time
      (w.time + F.offset j) (tryAcquireOrRenew (F.settings j) (w.time + F.offset j) .none .none
        (w.electors j) w.backend).1 (tryAcquireOrRenew (F.settings j) (w.time + F.offset j) .none
        .none (w.electors j) w.backend).2.1 (w.drivers j)).2 := by simp [World.tick]
  have hbackend : (w.tick F j .none .none).backend = (tryAcquireOrRenew (F.settings j)
      (w.time + F.offset j) .none .none (w.electors j) w.backend).2.2 := rfl
  have hdue : ∀ n ∈ ((w.tick F j .none .none).drivers j).tickAt,
      w.time + (F.settings j).retryPeriodSec = n := by
    intro n hn
    rw [hdriver] at hn
    exact (afterTick_tickAt (by simp [hj]) hn).symm
  have htick := @undisturbed_tick (F.settings j) (w.time + F.offset j) (w.electors j) w.backend
  generalize tryAcquireOrRenew (F.settings j) (w.time + F.offset j) .none .none (w.electors j)
    w.backend = outcome at hdriver helector hbackend htick
  refine ⟨hversioned, fun n hn => ?_, fun n hn => .inr ?_, fun n hn => ?_⟩
  · rw [← hdue n hn]
    change w.time ≤ _
    linarith
  · have hnext := hdue n (by rw [hn]; rfl)
    rcases htick with ⟨hsuccess, -⟩ | ⟨-, hsame, r, hr, hvalid⟩
    · rw [hdriver] at hn
      cases hd : w.drivers j with
      | acquiring m => simp [afterTick, hd, hsuccess] at hn
      | renewing m => simp [afterTick, hd, LeaderElector.afterRenewTick, hsuccess] at hn
      | notStarted => simp [hd, Driver.tickAt] at hj
      | lost => simp [hd, Driver.tickAt] at hj
      | stopped => simp [hd, Driver.tickAt] at hj
    · refine ⟨hnext.ge, r, by rw [hbackend, hsame, hr], ?_⟩
      rw [← hnext]
      linarith
  · rw [hdriver] at hn
    rw [helector]
    rcases htick with ⟨hsuccess, hleads⟩ | ⟨hother, -⟩
    · cases hd : w.drivers j with
      | acquiring m => simpa [afterTick, hsuccess] using hleads
      | renewing m => simpa [afterTick, LeaderElector.afterRenewTick, hsuccess] using hleads
      | notStarted => simp [hd, Driver.tickAt] at hj
      | lost => simp [hd, Driver.tickAt] at hj
      | stopped => simp [hd, Driver.tickAt] at hj
    · cases hd : w.drivers j with
      | acquiring m => simp [afterTick, hd, hother, LeaseAttempt.isSuccess] at hn
      | renewing m =>
        simp [afterTick, hd, LeaderElector.afterRenewTick, hother, LeaseAttempt.isSuccess] at hn
      | notStarted => simp [hd, Driver.tickAt] at hj
      | lost => simp [hd, Driver.tickAt] at hj
      | stopped => simp [hd, Driver.tickAt] at hj

theorem awaits_step (hskew : ∀ i, F.skew ≤ (F.settings i).leaseDurationSec) {e : DriverEvent ι}
    (h : Awaits F j w) (hok : Undisturbed j w e) (hs : Step F w e w') : Awaits F j w' := by
  cases hs with
  | advance ht hnext => exact h.advance ht (hnext j)
  | start hi => exact h.setDriver fun _ => .inl rfl
  | @tick i f g hi =>
    by_cases hij : i = j
    · obtain ⟨rfl, rfl⟩ := hok hij
      subst hij
      exact h.own_tick hi
    · exact h.other_tick hij (hskew i) f g
  | stop hi => exact h.setDriver fun _ => .inr rfl

/-- A driver that waits for its next tick leads, or the stored lease ran out by its clock at most
one retry period ago. -/
theorem lease_taken_over_in_time (hskew : ∀ i, F.skew ≤ (F.settings i).leaseDurationSec)
    (h : Reachable InitialWorld (guarded (Undisturbed j) (Step F)) w) {n : ℚ}
    (hwaits : (w.drivers j).tickAt = some n) (htime : w.time < n) :
    Leads w j ∨ ∃ r, w.backend.record = some r ∧
      w.time + F.offset j ≤ r.renewTime + r.leaseDurationSec + (F.settings j).retryPeriodSec := by
  have hawaits : Awaits F j w :=
    h.invariant (fun _ => awaits_initial) fun _ _ _ hI hs => awaits_step hskew hI hs.1 hs.2
  cases hd : w.drivers j with
  | acquiring m =>
    obtain rfl : m = n := by simpa [hd, Driver.tickAt] using hwaits
    rcases hawaits.acquiring m hd with heq | ⟨-, r, hr, hvalid⟩
    · exact absurd heq htime.ne
    · exact .inr ⟨r, hr, by linarith⟩
  | renewing m => exact .inl ⟨hawaits.renewing m hd, by simp [hd]⟩
  | notStarted => simp [hd, Driver.tickAt] at hwaits
  | lost => simp [hd, Driver.tickAt] at hwaits
  | stopped => simp [hd, Driver.tickAt] at hwaits

end Drivers

theorem lease_taken_over_in_time_second :
    ∃ w, Reachable InitialWorld (guarded (Undisturbed false) (Step skewedPods)) w ∧
      ¬ Leads w false ∧ ∃ r, w.backend.record = some r ∧
        w.time + skewedPods.offset false ≤ r.renewTime + r.leaseDurationSec +
          (skewedPods.settings false).retryPeriodSec := by
  let w₁ := (stoppedWorld.setDriver true (.acquiring 0)).tick skewedPods true .none .none
  let w₂ := (w₁.setDriver false (.acquiring 0)).tick skewedPods false .none .none
  let w₃ := { w₂ with time := 1 }
  let step := guarded (Undisturbed false) (Step skewedPods)
  have hstart : step stoppedWorld (.start true) _ := ⟨trivial, .start rfl⟩
  have htick : step _ (.tick true .none .none) w₁ := ⟨nofun, .tick (by decide +kernel)⟩
  have hstart' : step w₁ (.start false) _ := ⟨trivial, .start (by decide +kernel)⟩
  have htick' : step _ (.tick false .none .none) w₂ :=
    ⟨fun _ => ⟨rfl, rfl⟩, .tick (by decide +kernel)⟩
  have hadvance : step w₂ (.advance 1) w₃ :=
    ⟨trivial, .advance (by decide +kernel) (by decide +kernel)⟩
  have hreach : Reachable InitialWorld step w₃ :=
    ((((Reachable.start initialWorld_stoppedWorld).snoc hstart).snoc htick).snoc hstart').snoc
      htick' |>.snoc hadvance
  have hstands : ¬ Leads w₃ false := by
    unfold Leads
    decide +kernel
  refine ⟨w₃, hreach, hstands, ?_⟩
  have hwaits : (w₃.drivers false).tickAt = some 2 := by decide +kernel
  have hskew : ∀ i, skewedPods.skew ≤ (skewedPods.settings i).leaseDurationSec := by decide +kernel
  have htime : w₃.time < 2 := by decide +kernel
  exact (lease_taken_over_in_time hskew hreach hwaits htime).resolve_left hstands

end BifrostSocket.FailoverBounds
