import Writz.Relayer.Proofs.Payments

/-!
# Proofs: the limits of the faucet

A claim is recorded after its broadcast, and counted in every later check. No other claim is recorded in
between, so the window of the check covers the one that ends at the record.
-/

namespace Writz.Relayer

open Node
open BitcoinScript (P2wpkhPayment)

def DAY_MS : Int := 86400000

namespace ClaimStore

/-- The claims from an IP in the window of a given length that begins at `start`. -/
def inWindow (store : ClaimStore) (ipHash : Text) (start length : Int) : List ClaimRecord :=
  store.filter fun c => c.ipHash = ipHash ∧ start ≤ c.createdAt ∧ c.createdAt < start + length

/-- The claims of a UTC day, counted from the first. -/
def onDay (store : ClaimStore) (day : Int) : List ClaimRecord :=
  store.filter fun c => day * DAY_MS ≤ c.createdAt ∧ c.createdAt < (day + 1) * DAY_MS

/-- The records are within the limits. -/
structure Within (settings : FaucetSettings) (store : ClaimStore) : Prop where
  window : ∀ ipHash start,
    (store.inWindow ipHash start settings.ipWindowMs).length ≤ settings.ipClaimsPerWindow
  day : ∀ day, (store.onDay day).length ≤ settings.dailyCap

theorem Within.nil (settings : FaucetSettings) : Within settings [] where
  window _ _ := Nat.zero_le _
  day _ := Nat.zero_le _

/-- The claims from an IP. -/
def fromIp (store : ClaimStore) (ipHash : Text) : List ClaimRecord := store.filter fun c => c.ipHash = ipHash

theorem ipClaimsSince_eq (store : ClaimStore) (ipHash : Text) (since : Int) :
    store.ipClaimsSince ipHash since = (((store.fromIp ipHash).filter fun c => since ≤ c.createdAt).map
      ClaimRecord.createdAt).insertionSort fun a b => a ≤ b := by
  unfold ipClaimsSince fromIp
  rw [List.filter_filter]
  congr 2
  refine List.filter_congr fun c _ => ?_
  exact Bool.and_comm _ _

theorem length_ipClaimsSince (store : ClaimStore) (ipHash : Text) (since : Int) :
    (store.ipClaimsSince ipHash since).length
      = ((store.fromIp ipHash).filter fun c => since ≤ c.createdAt).length := by
  rw [ipClaimsSince_eq, List.length_insertionSort, List.length_map]

end ClaimStore

theorem length_filter_snoc {α : Type} (p : α → Prop) [DecidablePred p] (l : List α) (x : α) :
    ((l ++ [x]).filter fun c => p c).length
      = (l.filter fun c => p c).length + if p x then 1 else 0 := by
  rw [List.filter_append, List.length_append, List.filter_singleton]
  by_cases h : p x <;> simp [h]

/-! ## What a check says -/

section

variable {settings : FaucetSettings} {store : ClaimStore} {t : Int} {claimant : Claimant} {ipHash : Text}

/-- What a check counts is below the limits. -/
theorem counts_of_checkLimits (h : checkLimits settings store t claimant ipHash = .ok ()) :
    ((store.fromIp ipHash).filter fun c => t - settings.ipWindowMs + 1 ≤ c.createdAt).length
        < settings.ipClaimsPerWindow ∧
      store.countSince (startOfUtcDay t) < settings.dailyCap := by
  simp only [checkLimits, bind_eq_ok, failIf_eq_ok] at h
  obtain ⟨-, -, -, -, -, -, -, hip, hday⟩ := h
  rw [ClaimStore.length_ipClaimsSince] at hip
  exact ⟨not_le.mp hip, not_le.mp hday⟩

/-- The day of a moment. -/
theorem startOfUtcDay_eq (t : Int) : startOfUtcDay t = t / DAY_MS * DAY_MS := by
  unfold startOfUtcDay DAY_MS
  omega

/-- A claim that was checked keeps the limits when it is recorded, if nothing was recorded since. -/
theorem ClaimStore.Within.append (hin : store.Within settings) (hcap : 1 ≤ settings.dailyCap) {now : Int}
    (hpast : ∀ c ∈ store, c.createdAt ≤ t) (hle : t ≤ now)
    (hchecked : checkLimits settings store t claimant ipHash = .ok ()) {claim : ClaimRecord}
    (hip : claim.ipHash = ipHash) (hnow : claim.createdAt = now) :
    ClaimStore.Within settings (store ++ [claim]) := by
  obtain ⟨hwindow, hday⟩ := counts_of_checkLimits hchecked
  constructor
  · intro ip start
    unfold ClaimStore.inWindow
    rw [length_filter_snoc]
    by_cases hclaim : claim.ipHash = ip ∧ start ≤ claim.createdAt ∧
        claim.createdAt < start + settings.ipWindowMs
    · -- the window began when the claim was checked, or later
      have hearlier : (store.filter fun c => c.ipHash = ip ∧ start ≤ c.createdAt ∧
          c.createdAt < start + settings.ipWindowMs).length
          ≤ ((store.fromIp ipHash).filter fun c => t - settings.ipWindowMs + 1 ≤ c.createdAt).length := by
        unfold ClaimStore.fromIp
        rw [List.filter_filter]
        refine (List.monotone_filter_right _ fun c hc => ?_).length_le
        simp only [Bool.and_eq_true, decide_eq_true_eq] at hc ⊢
        exact ⟨by omega, by rw [hc.1, ← hclaim.1, hip]⟩
      rw [if_pos hclaim]
      omega
    · rw [if_neg hclaim]
      exact hin.window ip start
  · intro day
    unfold ClaimStore.onDay
    rw [length_filter_snoc]
    by_cases hclaim : day * DAY_MS ≤ claim.createdAt ∧ claim.createdAt < (day + 1) * DAY_MS
    · -- the claims of the day that the check counted; there are none if it was the day before
      have hearlier : (store.filter fun c => day * DAY_MS ≤ c.createdAt ∧
          c.createdAt < (day + 1) * DAY_MS).length < settings.dailyCap := by
        rcases lt_or_ge t (day * DAY_MS) with hbefore | hsame
        · have hnone : (store.filter fun c => day * DAY_MS ≤ c.createdAt ∧
              c.createdAt < (day + 1) * DAY_MS) = [] := by
            refine List.filter_eq_nil_iff.mpr fun c hc => ?_
            have := hpast c hc
            rw [decide_eq_true_eq]
            omega
          rw [hnone, List.length_nil]
          exact hcap
        · refine lt_of_le_of_lt (List.monotone_filter_right _ fun c hc => ?_).length_le hday
          rw [decide_eq_true_eq] at hc ⊢
          rw [startOfUtcDay]
          unfold DAY_MS at *
          omega
      rw [if_pos hclaim]
      omega
    · rw [if_neg hclaim]
      exact hin.day day

end

/-! ## When a refused claim may try again -/

/-- In a sorted list, few numbers are greater than the one at a position. -/
theorem length_filter_gt {l : List Int} (hsorted : l.Pairwise (· ≤ ·)) {i : Nat} (hi : i < l.length)
    {bound : Int} (hbound : l[i] < bound) :
    (l.filter fun x => bound ≤ x).length + i < l.length := by
  have hsplit : l = l.take (i + 1) ++ l.drop (i + 1) := (List.take_append_drop _ _).symm
  have hnone : ((l.take (i + 1)).filter fun x => bound ≤ x) = [] := by
    refine List.filter_eq_nil_iff.mpr fun x hx => ?_
    obtain ⟨j, hj, rfl⟩ := List.mem_iff_getElem.mp hx
    rw [List.length_take] at hj
    have hle : l[j] ≤ l[i] := by
      rcases Nat.eq_or_lt_of_le (show j ≤ i by omega) with rfl | hlt
      · exact le_rfl
      · exact List.pairwise_iff_getElem.mp hsorted j i (by omega) hi hlt
    rw [List.getElem_take, decide_eq_true_eq]
    omega
  have hfew : ((l.drop (i + 1)).filter fun x => bound ≤ x).length ≤ l.length - (i + 1) := by
    refine List.length_filter_le _ _ |>.trans ?_
    rw [List.length_drop]
  conv_lhs => rw [hsplit]
  rw [List.filter_append, hnone, List.nil_append]
  omega

section

variable {settings : FaucetSettings} {store store' : ClaimStore} {t t' : Int} {claimant : Claimant}
  {ipHash : Text} {e : FaucetError} {seconds : Int}

/-- A refusal for the claims of an IP. -/
theorem checkLimits_ip (h : checkLimits settings store t claimant ipHash = .error e)
    (hcode : e.code = .ip_cooldown) :
    let ipClaims := store.ipClaimsSince ipHash (t - settings.ipWindowMs + 1)
    settings.ipClaimsPerWindow ≤ ipClaims.length ∧
      e.retryAfterSeconds = some (max 1 (-((t - (ipClaims.getD
        (ipClaims.length - settings.ipClaimsPerWindow) 0 + settings.ipWindowMs)) / 1000))) := by
  simp only [checkLimits, bind_eq_error, failIf_eq_error] at h
  rcases h with ⟨-, rfl⟩ | ⟨-, -, ⟨-, rfl⟩ | ⟨-, -, ⟨-, rfl⟩ | ⟨-, -, ⟨hip, rfl⟩ | ⟨-, -, -, rfl⟩⟩⟩⟩
  · cases hcode
  · cases hcode
  · cases hcode
  · exact ⟨hip, rfl⟩
  · cases hcode

/-- A refusal for the claims of a day, the other checks being passed. -/
theorem checkLimits_day (h : checkLimits settings store t claimant ipHash = .error e)
    (hcode : e.code = .daily_cap_reached) :
    e.retryAfterSeconds = some (-((t - (startOfUtcDay t + 86400000)) / 1000)) ∧
      ¬ claimant.userKey.any store.hasClaimForUser = true ∧
      ¬ store.hasClaimForStellarAddress claimant.stellarAddress = true ∧
      ¬ store.hasClaimForAddress claimant.address = true ∧
      (store.ipClaimsSince ipHash (t - settings.ipWindowMs + 1)).length < settings.ipClaimsPerWindow := by
  simp only [checkLimits, bind_eq_error, failIf_eq_error, failIf_eq_ok] at h
  rcases h with ⟨-, rfl⟩ | ⟨-, huser, ⟨-, rfl⟩ | ⟨-, hstellar, ⟨-, rfl⟩ | ⟨-, haddress, ⟨-, rfl⟩ |
    ⟨-, hip, -, rfl⟩⟩⟩⟩
  · cases hcode
  · cases hcode
  · cases hcode
  · cases hcode
  · exact ⟨rfl, huser, hstellar, haddress, not_le.mp hip⟩

/-- So many seconds later a claim from the IP has left the window. -/
theorem ip_passes (hallowance : 1 ≤ settings.ipClaimsPerWindow)
    (h : checkLimits settings store t claimant ipHash = .error e) (hcode : e.code = .ip_cooldown)
    (hseconds : e.retryAfterSeconds = some seconds) (hlater : t + 1000 * seconds ≤ t')
    (hsame : store'.fromIp ipHash = store.fromIp ipHash) :
    (store'.ipClaimsSince ipHash (t' - settings.ipWindowMs + 1)).length < settings.ipClaimsPerWindow := by
  obtain ⟨hfull, hretry⟩ := checkLimits_ip h hcode
  rw [ClaimStore.length_ipClaimsSince, hsame]
  have hsorted : (store.ipClaimsSince ipHash (t - settings.ipWindowMs + 1)).Pairwise (· ≤ ·) :=
    List.pairwise_insertionSort _ _
  -- the later count is one over the same times
  have hcount : ((store.fromIp ipHash).filter fun c => t' - settings.ipWindowMs + 1 ≤ c.createdAt).length
      ≤ ((store.ipClaimsSince ipHash (t - settings.ipWindowMs + 1)).filter fun x =>
        t' - settings.ipWindowMs + 1 ≤ x).length := by
    rw [ClaimStore.ipClaimsSince_eq, ((List.perm_insertionSort _ _).filter _).length_eq, List.filter_map,
      List.length_map, List.filter_filter]
    refine (List.monotone_filter_right _ fun c hc => ?_).length_le
    have hpos : 1 ≤ seconds := by
      rw [hseconds] at hretry
      rw [Option.some.inj hretry]
      exact le_max_left _ _
    simp only [Function.comp_apply, Bool.and_eq_true, decide_eq_true_eq] at hc ⊢
    omega
  revert hfull hretry hsorted hcount
  generalize store.ipClaimsSince ipHash (t - settings.ipWindowMs + 1) = times
  intro hfull hretry hsorted hcount
  have hi : times.length - settings.ipClaimsPerWindow < times.length := by omega
  have hfrees : times[times.length - settings.ipClaimsPerWindow] < t' - settings.ipWindowMs + 1 := by
    rw [hseconds, List.getD_eq_getElem _ _ hi] at hretry
    have hmax := le_max_right 1 (-((t - (times[times.length - settings.ipClaimsPerWindow]
      + settings.ipWindowMs)) / 1000))
    rw [← Option.some.inj hretry] at hmax
    omega
  have hfew := length_filter_gt hsorted hi hfrees
  omega

/-- So many seconds later it is another day, on which nothing is recorded. -/
theorem day_passes (hallowance : 1 ≤ settings.dailyCap) (hpast : ∀ c ∈ store, c.createdAt ≤ t)
    (h : checkLimits settings store t claimant ipHash = .error e) (hcode : e.code = .daily_cap_reached)
    (hseconds : e.retryAfterSeconds = some seconds) (hlater : t + 1000 * seconds ≤ t') :
    checkLimits settings store t' claimant ipHash = .ok () := by
  obtain ⟨hretry, huser, hstellar, haddress, hip⟩ := checkLimits_day h hcode
  rw [hseconds] at hretry
  have hnext : startOfUtcDay t + 86400000 ≤ t' := by
    have := Option.some.inj hretry
    omega
  have hnone : store.countSince (startOfUtcDay t') = 0 := by
    rw [ClaimStore.countSince, List.length_eq_zero_iff]
    refine List.filter_eq_nil_iff.mpr fun c hc => ?_
    have := hpast c hc
    rw [decide_eq_true_eq]
    unfold startOfUtcDay at *
    omega
  have hip' : (store.ipClaimsSince ipHash (t' - settings.ipWindowMs + 1)).length
      < settings.ipClaimsPerWindow := by
    rw [ClaimStore.length_ipClaimsSince] at hip ⊢
    refine lt_of_le_of_lt (List.monotone_filter_right _ fun c hc => ?_).length_le hip
    have hle : t ≤ t' := by
      unfold startOfUtcDay at hnext
      omega
    rw [decide_eq_true_eq] at hc ⊢
    omega
  simp only [checkLimits, bind_eq_ok, failIf_eq_ok]
  refine ⟨(), huser, (), hstellar, (), haddress, (), not_le.mpr hip', ?_⟩
  rw [hnone]
  omega

end

namespace Faucet

variable {deps : FaucetDeps} {s s' : Faucet} {a : FaucetLabel}

/-! ## Runs -/

/-- The clock does not go back. -/
def ClockForward (s : Faucet) : FaucetLabel → Prop
  | .clock t => s.now ≤ t
  | _ => True

instance (s : Faucet) (a : FaucetLabel) : Decidable (s.ClockForward a) :=
  match a with
  | .clock t => inferInstanceAs (Decidable (s.now ≤ t))
  | .claim .. | .verified .. | .enter _ | .listed _ | .estimated _ | .answered .. | .status
  | .statusListed .. | .accept _ | .restart => inferInstanceAs (Decidable True)

/-- The records are within the limits, and so will they be with that of the claim that holds the lock: it
was checked at a moment since when nothing was recorded. -/
structure Keeps (deps : FaucetDeps) (s : Faucet) : Prop where
  within : s.store.Within deps.settings
  past : ∀ c ∈ s.store, c.createdAt ≤ s.now
  checked : ∀ c ∈ s.claiming, ∃ t ≤ s.now, (∀ r ∈ s.store, r.createdAt ≤ t) ∧
    checkLimits deps.settings s.store t c.claimant.claimant c.ipHash = .ok ()

theorem Keeps.of_store (hs : s.Keeps deps) (hstore : s'.store = s.store) (hnow : s.now ≤ s'.now)
    (hclaiming : ∀ c ∈ s'.claiming, c ∈ s.claiming) : s'.Keeps deps where
  within := hstore ▸ hs.within
  past c hc := (hs.past c (hstore ▸ hc)).trans hnow
  checked c hc := by
    obtain ⟨t, ht, hpast, hchecked⟩ := hs.checked c (hclaiming c hc)
    rw [hstore]
    exact ⟨t, ht.trans hnow, hpast, hchecked⟩

theorem Keeps.step (hcap : 1 ≤ deps.settings.dailyCap) (hs : s.Keeps deps) (hclock : s.ClockForward a)
    (h : Moves deps s a s') : s'.Keeps deps := by
  have hends : ∀ c : Claim, c ∈ (none : Option Claim) → c ∈ s.claiming := fun c hc => by cases hc
  cases h with
  | idle store claiming held pending sent accepted change now =>
    have hnow : s.now ≤ s'.now := by
      rcases now with now | rfl
      · exact now.ge
      · exact hclock
    exact hs.of_store store hnow fun c hc => claiming ▸ hc
  | locks free allowed =>
    refine ⟨hs.within, hs.past, fun c hc => ?_⟩
    obtain rfl := Option.some.inj hc
    exact ⟨s.now, le_rfl, hs.past, allowed⟩
  | fails => exact hs.of_store rfl le_rfl hends
  | lists waits =>
    refine hs.of_store rfl le_rfl fun c hc => ?_
    rw [claiming, waits]
    exact hc
  | sends waits =>
    refine hs.of_store rfl le_rfl fun c hc => ?_
    rw [claiming, waits]
    exact hc
  | rejected => exact hs.of_store rfl le_rfl hends
  | unknown => exact hs.of_store rfl le_rfl hends
  | @paid _ _ claim payment _ _ store waits stored =>
    rcases stored with ⟨-, hrecord⟩ | ⟨-, rfl⟩
    · -- the record of the claim that was checked
      obtain rfl := ClaimStore.record_eq_ok hrecord
      obtain ⟨t, ht, hpast, hchecked⟩ := hs.checked claim (by rw [claiming, waits]; rfl)
      refine ⟨hs.within.append hcap hpast ht hchecked rfl rfl, fun c hc => ?_, fun c hc => by cases hc⟩
      rcases List.mem_append.mp hc with hc | hc
      · exact hs.past c hc
      · rw [List.mem_singleton.mp hc]
        exact le_rfl
    · exact hs.of_store rfl le_rfl hends
  | accepts => exact hs.of_store rfl le_rfl fun c hc => hc
  | restarts => exact hs.of_store rfl le_rfl hends

/-- In every run with a clock that does not go back, from a database within the limits, no IP has more
recorded claims in a window than it is allowed and no UTC day more than the cap, and a claim that is refused
for one of these passes that check when it is told to try again. -/
theorem faucet_limits {start : Faucet} (hinit : (faucet deps).init start)
    (hwithin : start.store.Within deps.settings) (hpast : ∀ c ∈ start.store, c.createdAt ≤ start.now)
    (hallowance : 1 ≤ deps.settings.ipClaimsPerWindow) (hcap : 1 ≤ deps.settings.dailyCap)
    (h : Runs.Via ((faucet deps).after start) ClockForward s) :
    s.store.Within deps.settings ∧
      ∀ claimant ipHash e seconds,
        checkLimits deps.settings s.store s.now claimant ipHash = .error e →
        e.retryAfterSeconds = some seconds →
        ∀ (store : ClaimStore) t, s.now + 1000 * seconds ≤ t →
          (e.code = .ip_cooldown → store.fromIp ipHash = s.store.fromIp ipHash →
            ∀ claimant' e', checkLimits deps.settings store t claimant' ipHash = .error e' →
              e'.code ≠ .ip_cooldown) ∧
          (e.code = .daily_cap_reached → store = s.store →
            checkLimits deps.settings store t claimant ipHash = .ok ()) := by
  have hs : s.Keeps deps := by
    refine h.invariant ?_ fun _ _ _ hs hclock hstep => hs.step hcap hclock (step_moves hstep)
    rintro s rfl
    refine ⟨hwithin, hpast, fun c hc => ?_⟩
    rw [claiming, hinit.2.2.2.2.1] at hc
    cases hc
  refine ⟨hs.within, fun claimant ipHash e seconds hrefused hseconds store t hlater => ⟨?_, ?_⟩⟩
  · intro hcode hsame claimant' e' hrefused' hcode'
    have hpasses := ip_passes hallowance hrefused hcode hseconds hlater hsame
    exact absurd (checkLimits_ip hrefused' hcode').1 (not_le.mpr hpasses)
  · rintro hcode rfl
    exact day_passes hcap hs.past hrefused hcode hseconds hlater

namespace Demo

/-- Two claims an hour for an IP. -/
def strict : FaucetDeps :=
  { Demo.deps with settings := { Demo.deps.settings with ipClaimsPerWindow := 2 } }

/-- A third user of the IP. -/
def carol : Claimant where
  address := "tb1qw508d6qejxtdg4y5r3zarvary0c5xw7kxpjzsx".toList
  stellarAddress := "GAAAAAAAAAAAAAAAAAAAAAAAAAAAAAAAAAAAAAAAAAAAAAAAAAAAAAAN".toList
  userKey := none

/-- She is told to wait for an hour. -/
def waits (s : Faucet) : Bool :=
  match checkLimits strict.settings s.store s.now carol ipHash with
  | .error e => decide (e.code = .ip_cooldown) && decide (e.retryAfterSeconds = some 3600)
  | .ok _ => false

end Demo

/-- After the payments to two users a third of their IP waits for an hour. -/
theorem faucet_limits_vector :
    ∃ s, Runs.Reachable (faucet Demo.strict) s ∧ s.store.length = 2 ∧ Demo.waits s = true ∧
      s.store.Within Demo.strict.settings ∧
      ∀ e, checkLimits Demo.strict.settings s.store (s.now + 3600000) Demo.carol Demo.ipHash = .error e →
        e.code ≠ .ip_cooldown := by
  have hrun : ((faucet Demo.strict).replayIf (fun s a => decide (s.ClockForward a)) Demo.opened
      Demo.bothPaid).any (fun s => decide (s.store.length = 2) && Demo.waits s) = true := by
    decide +kernel
  obtain ⟨s, hs, hboth⟩ := (Option.any_eq_true _ _).mp hrun
  obtain ⟨htwo, hwaits⟩ := (Bool.and_eq_true _ _).mp hboth
  have hinit : (faucet Demo.strict).init Demo.opened := Demo.opened_init
  have hvia := (Runs.Via.init hinit).replayIf (fun _ _ => of_decide_eq_true) hs
  have hafter : Runs.Via ((faucet Demo.strict).after Demo.opened) ClockForward s :=
    (Runs.Via.init rfl).replayIf (fun _ _ => of_decide_eq_true) hs
  have hlimits := faucet_limits hinit (.nil _) (fun c hc => by cases hc) (by decide) (by decide) hafter
  refine ⟨s, hvia.reachable, of_decide_eq_true htwo, hwaits, hlimits.1, ?_⟩
  unfold Demo.waits at hwaits
  split at hwaits
  · rename_i e hrefused
    obtain ⟨hcode, hseconds⟩ := (Bool.and_eq_true _ _).mp hwaits
    have hlater := hlimits.2 _ _ e 3600 hrefused (of_decide_eq_true hseconds) s.store (s.now + 3600000)
      (by omega)
    exact hlater.1 (of_decide_eq_true hcode) rfl _
  · cases hwaits

end Faucet

end Writz.Relayer
