import Writz.Lend.Proofs.Checks
import Writz.Lend.Proofs.Repricing

/-!
# Proofs: what the admin decides

The admin's settings decide who may deposit, lend, borrow and liquidate. They do not reach the ways out:
whatever is set and whenever, paused or not, the same repayments and withdrawals succeed, with the same
effect. And the configuration changes with the admin's authorization only, in fields that are no terms of a
loan.
-/

namespace Writz.Lend

variable {τ ρ : Type}

/-! ## The ways out -/

/-- The calls that return loans and take supplies out. -/
def Call.exits : Call → Bool
  | .withdrawSupply .. | .repay .. => true
  | _ => false

/-- The events of the admin setters. -/
def Event.administrative : Event → Bool
  | .pausedSet .. | .oracleSet .. | .entryTtlSet .. => true
  | _ => false

/-- Two states of a configured instance that differ in the settings and their events alone. -/
structure Agree (w v : World τ ρ) : Prop where
  configured : w.config.isSome = true ∧ v.config.isSome = true
  same : v = { w with config := v.config, events := v.events }
  events : w.events.filter (fun e => !e.administrative) = v.events.filter (fun e => !e.administrative)

theorem Agree.refl {w : World τ ρ} (h : w.config.isSome = true) : Agree w w := ⟨⟨h, h⟩, rfl, rfl⟩

theorem Agree.trans {u v w : World τ ρ} (h : Agree u v) (h' : Agree v w) : Agree u w := by
  refine ⟨⟨h.configured.1, h'.configured.2⟩, ?_, h.events.trans h'.events⟩
  rw [h'.same, h.same]

theorem Agree.symm {w v : World τ ρ} (h : Agree w v) : Agree v w := by
  refine ⟨h.configured.symm, ?_, h.events.symm⟩
  rw [h.same]

section

variable {A : Arith} {H : Host τ ρ} {env : Env} {w v w' : World τ ρ}

theorem filter_publish {es es' : List Event} {e : Event}
    (h : es.filter (fun e => !e.administrative) = es'.filter (fun e => !e.administrative)) :
    (es ++ [e]).filter (fun e => !e.administrative) = (es' ++ [e]).filter (fun e => !e.administrative) := by
  rw [List.filter_append, List.filter_append, h]

theorem withdrawSupply_agree {supplier : Address} {amount : Int} (h : Agree w v)
    (hok : withdrawSupply A H env w supplier amount = .ok w') :
    ∃ v', withdrawSupply A H env v supplier amount = .ok v' ∧ Agree w' v' := by
  obtain ⟨⟨hw, hv⟩, hsame, hevents⟩ := h
  obtain ⟨c, hc⟩ := Option.isSome_iff_exists.mp hv
  generalize v.events = es at hsame hevents
  rw [hc] at hsame
  subst hsame
  simp only [withdrawSupply, bind_eq_ok, failIf_eq_ok, okOr_eq_ok, transfer_eq_ok] at hok ⊢
  obtain ⟨_, hauth, config, hconfig, _, hamount, _, hvalue, _, havailable, w₁, ⟨t, ht, rfl⟩, hok⟩ := hok
  cases hok
  refine ⟨_, ⟨(), hauth, c, rfl, (), hamount, (), hvalue, (), havailable, _, ⟨t, ht, rfl⟩, rfl⟩, ?_⟩
  exact ⟨⟨hw, rfl⟩, rfl, filter_publish hevents⟩

theorem repay_agree {repayer : Address} {txid : BytesN 32} {amount : Int} (h : Agree w v)
    (hok : repay A H env w repayer txid amount = .ok w') :
    ∃ v', repay A H env v repayer txid amount = .ok v' ∧ Agree w' v' := by
  obtain ⟨⟨hw, hv⟩, hsame, hevents⟩ := h
  obtain ⟨c, hc⟩ := Option.isSome_iff_exists.mp hv
  generalize v.events = es at hsame hevents
  rw [hc] at hsame
  subst hsame
  simp only [repay, bind_eq_ok, failIf_eq_ok, okOr_eq_ok, transfer_eq_ok] at hok ⊢
  obtain ⟨_, hauth, config, hconfig, pos, hpos, _, hactive, _, hdebt, w₁, ⟨t, ht, rfl⟩, hok⟩ := hok
  cases hok
  refine ⟨_, ⟨(), hauth, c, rfl, pos, hpos, (), hactive, (), hdebt, _, ⟨t, ht, rfl⟩, rfl⟩, ?_⟩
  exact ⟨⟨hw, rfl⟩, rfl, filter_publish hevents⟩

/-- An exit that succeeds in one of two such states succeeds in the other, with the same effect. -/
theorem exec_agree {c : Call} (hexit : c.exits = true) (h : Agree w v) (hok : exec A H env w c = .ok w') :
    ∃ v', exec A H env v c = .ok v' ∧ Agree w' v' := by
  cases c with
  | withdrawSupply supplier amount => exact withdrawSupply_agree h hok
  | repay repayer txid amount => exact repay_agree h hok
  | _ => cases hexit

theorem invoke_agree {c : Call} (hexit : c.exits = true) (h : Agree w v) :
    Agree (invoke A H env w c) (invoke A H env v c) := by
  unfold invoke
  cases hw : exec A H env w c with
  | ok w' =>
    obtain ⟨v', hv, hagree⟩ := exec_agree hexit h hw
    rw [hv]
    exact hagree
  | error e =>
    cases hv : exec A H env v c with
    | ok v' =>
      obtain ⟨w', hok, -⟩ := exec_agree hexit h.symm hv
      rw [hw] at hok
      cases hok
    | error e' => exact h

theorem adminUpdate_agree {caller : Address} {check : Result Unit} {update : Config → Config} {ev : List Event}
    (hev : ev.filter (fun e => !e.administrative) = []) (hw : w.config.isSome = true)
    (hok : adminUpdate H env w caller check update ev = .ok w') : Agree w' w := by
  simp only [adminUpdate, bind_eq_ok, failIf_eq_ok, okOr_eq_ok] at hok
  obtain ⟨_, -, config, hc, _, -, _, -, hok⟩ := hok
  cases hok
  refine ⟨⟨rfl, hw⟩, rfl, ?_⟩
  rw [List.filter_append, hev, List.append_nil]

/-- A setter leaves a state that agrees with the one before. -/
theorem invoke_configures {c : Call} (hc : c.configures = true) (hw : w.config.isSome = true) :
    Agree (invoke A H env w c) w := by
  unfold invoke
  split
  · next w' hok =>
    cases c <;> first | exact adminUpdate_agree rfl hw hok | cases hc
  · exact Agree.refl hw

end

section

variable {A : Arith} {H : Host τ ρ} {env : Env} {w v w' v' : World τ ρ}

/-- A setting of the admin's. -/
def Label.sets : Label τ ρ → Bool
  | .invoke _ c => c.configures
  | _ => false

/-- A way out, or what happens around the contract. -/
def Label.leads : Label τ ρ → Bool
  | .invoke _ c => c.exits
  | _ => true

theorem step_agree {l : Label τ ρ} (hl : l.leads = true) (h : Agree w v) (hs : step A H w l = some w') :
    ∃ v', step A H v l = some v' ∧ Agree w' v' := by
  cases l with
  | invoke env c =>
    cases hs
    exact ⟨_, rfl, invoke_agree hl h⟩
  | advance l =>
    simp only [step] at hs ⊢
    split_ifs at hs with hlater
    cases hs
    have hledger : v.ledger = w.ledger := by rw [h.same]
    rw [hledger, if_pos hlater]
    refine ⟨_, rfl, h.configured, ?_, h.events⟩
    rw [h.same]
  | outside t r =>
    simp only [step] at hs ⊢
    split_ifs at hs with hkept
    cases hs
    have htoken : v.token = w.token := by rw [h.same]
    rw [htoken, if_pos hkept]
    refine ⟨_, rfl, h.configured, ?_, h.events⟩
    rw [h.same]

theorem replay_agree {ls : List (Label τ ρ)} :
    ∀ {w v w' : World τ ρ}, (∀ l ∈ ls, l.leads = true ∨ l.sets = true) → Agree w v →
      (system A H).replay w ls = some w' →
        ∃ v', (system A H).replay v (ls.filter fun l => !l.sets) = some v' ∧ Agree w' v' := by
  induction ls with
  | nil =>
    intro w v w' _ h hr
    cases hr
    exact ⟨v, rfl, h⟩
  | cons l ls ih =>
    intro w v w' hls h hr
    obtain ⟨w₁, hs, hr⟩ := Option.bind_eq_some_iff.mp hr
    have hrest : ∀ l' ∈ ls, l'.leads = true ∨ l'.sets = true := fun l' hl' => hls l' (List.mem_cons_of_mem _ hl')
    cases hsets : l.sets with
    | true =>
      -- a setting is left out of the second run, and the two states still agree
      rw [List.filter_cons_of_neg (by rw [hsets]; decide)]
      cases l with
      | invoke env c =>
        cases hs
        have hset : Agree (invoke A H env w c) w := invoke_configures hsets h.configured.1
        exact ih hrest (hset.trans h) hr
      | advance | outside => cases hsets
    | false =>
      have hleads : l.leads = true := (hls l List.mem_cons_self).resolve_right (by rw [hsets]; decide)
      obtain ⟨v₁, hv₁, h₁⟩ := step_agree hleads h hs
      obtain ⟨v', hv', h'⟩ := ih hrest h₁ hr
      refine ⟨v', ?_, h'⟩
      rw [List.filter_cons_of_pos (by rw [hsets]; rfl)]
      exact Option.bind_eq_some_iff.mpr ⟨v₁, hv₁, hv'⟩

end

/-! ## The configuration -/

/-- The terms of a loan and who may change the rest: fixed at deployment. -/
def Config.terms (c : Config) :
    Address × Address × BytesN 33 × Nat × Nat × Nat × Nat × Nat :=
  (c.admin, c.usdcToken, c.protocolPubkey, c.minDepositSatoshis, c.minCollateralRatioBp, c.liquidationThresholdBp,
    c.liquidationBonusBp, c.minConfirmations)

/-- The bounds of the constructor and of the setters. -/
structure Config.Valid (c : Config) : Prop where
  protocolPubkey : isCompressedPubkey c.protocolPubkey = true
  minConfirmations : 1 ≤ c.minConfirmations ∧ c.minConfirmations ≤ MAX_MIN_CONFIRMATIONS
  minDeposit : MIN_DEPOSIT_FLOOR_SATS ≤ c.minDepositSatoshis
  entryTtl : MIN_ENTRY_TTL_LEDGERS ≤ c.entryTtlLedgers ∧ c.entryTtlLedgers ≤ MAX_ENTRY_TTL_LEDGERS
  borrowMargin : DEFAULT_BORROW_TIMELOCK_MARGIN_BLOCKS ≤ c.borrowTimelockMarginBlocks
    ∧ c.borrowTimelockMarginBlocks ≤ MAX_TIMELOCK_MARGIN_BLOCKS
  maxTipAge : MIN_MAX_TIP_AGE_SECS ≤ c.maxTipAgeSecs ∧ c.maxTipAgeSecs ≤ MAX_MAX_TIP_AGE_SECS

/-- A configured instance within its bounds. -/
def Configured (w : World τ ρ) : Prop := ∃ c, w.config = some c ∧ c.Valid

section

variable {A : Arith} {H : Host τ ρ} {env : Env} {w w' : World τ ρ}

theorem Deployed.configured (h : Deployed w) : Configured w := by
  obtain ⟨admin, spvContract, usdcToken, oracle, keeper, relayer, protocolPubkey, minConfirmations,
    minDepositSatoshis, entryTtlLedgers, h⟩ := h
  simp only [construct, bind_eq_ok, failIf_eq_ok] at h
  obtain ⟨_, hkey, _, hparams, _, httl, h⟩ := h
  have hmargin : DEFAULT_BORROW_TIMELOCK_MARGIN_BLOCKS ≤ DEFAULT_BORROW_TIMELOCK_MARGIN_BLOCKS
      ∧ DEFAULT_BORROW_TIMELOCK_MARGIN_BLOCKS ≤ MAX_TIMELOCK_MARGIN_BLOCKS := by decide
  have htip : MIN_MAX_TIP_AGE_SECS ≤ DEFAULT_MAX_TIP_AGE_SECS ∧ DEFAULT_MAX_TIP_AGE_SECS ≤ MAX_MAX_TIP_AGE_SECS := by
    decide
  have hparams := not_or.mp hparams
  have hrest := not_or.mp hparams.2
  refine ⟨_, (congrArg Storage.config (Except.ok.inj h)).symm, ?_⟩
  exact
    { protocolPubkey := Bool.eq_true_of_not_eq_false hkey
      minConfirmations := ⟨Nat.pos_of_ne_zero hparams.1, not_lt.mp hrest.1⟩
      minDeposit := not_lt.mp hrest.2
      entryTtl := not_not.mp httl
      borrowMargin := hmargin
      maxTipAge := htip }

/-- What a setter changes: a setting, within bounds, with the admin's authorization. -/
theorem adminUpdate_eq_ok {caller : Address} {check : Result Unit} {update : Config → Config} {ev : List Event}
    (hok : adminUpdate H env w caller check update ev = .ok w') :
    ∃ c, w.config = some c ∧ env.auth c.admin = true ∧ (∃ u, check = .ok u) ∧ w'.config = some (update c) := by
  simp only [adminUpdate, bind_eq_ok, failIf_eq_ok, okOr_eq_ok] at hok
  obtain ⟨_, hauth, config, hc, _, hcaller, u, hcheck, hok⟩ := hok
  cases hok
  exact ⟨config, hc, not_not.mp hcaller ▸ requireAuth_auth hauth, ⟨u, hcheck⟩, rfl⟩

/-- What a call does to the configuration. -/
theorem exec_config {c : Call} (h : exec A H env w c = .ok w') (hw : Configured w) :
    ∃ config config', w.config = some config ∧ w'.config = some config' ∧ config'.Valid ∧
      config'.terms = config.terms ∧ (config' = config ∨ env.auth config.admin = true) := by
  obtain ⟨config, hc, hvalid⟩ := hw
  have hset : ∀ {caller : Address} {check : Result Unit} {update : Config → Config} {ev : List Event},
      adminUpdate H env w caller check update ev = .ok w' →
      (∀ u, check = .ok u → (update config).Valid) → (update config).terms = config.terms →
        ∃ config config', w.config = some config ∧ w'.config = some config' ∧ config'.Valid ∧
          config'.terms = config.terms ∧ (config' = config ∨ env.auth config.admin = true) := by
    intro caller check update ev hok hkeeps hterms
    obtain ⟨config₁, hc₁, hauth, ⟨u, hcheck⟩, hc'⟩ := adminUpdate_eq_ok hok
    obtain rfl : config = config₁ := Option.some.inj (hc.symm.trans hc₁)
    exact ⟨config, update config, hc, hc', hkeeps u hcheck, hterms, .inr hauth⟩
  cases c with
  | setMaxTotalBorrowed | setKeeper | setKeeperStaleWindow | setRelayer | setOracle | setSpvContract | setPaused =>
    exact hset h (fun _ _ => ⟨hvalid.1, hvalid.2, hvalid.3, hvalid.4, hvalid.5, hvalid.6⟩) rfl
  | setBorrowTimelockMargin caller blocks =>
    refine hset h (fun u hcheck => ?_) rfl
    have hbounds := not_not.mp (failIf_eq_ok.mp hcheck)
    exact ⟨hvalid.1, hvalid.2, hvalid.3, hvalid.4, hbounds, hvalid.6⟩
  | setMaxTipAge caller secs =>
    refine hset h (fun u hcheck => ?_) rfl
    have hbounds := not_not.mp (failIf_eq_ok.mp hcheck)
    exact ⟨hvalid.1, hvalid.2, hvalid.3, hvalid.4, hvalid.5, hbounds⟩
  | setEntryTtl caller entryTtlLedgers =>
    refine hset h (fun u hcheck => ?_) rfl
    have hbounds := not_not.mp (failIf_eq_ok.mp hcheck)
    exact ⟨hvalid.1, hvalid.2, hvalid.3, hbounds, hvalid.5, hvalid.6⟩
  | deposit | supplyUsdc | withdrawSupply | borrow | repay | liquidate | keeperHeartbeat | publishReleasePsbt =>
    have hsame : w'.config = w.config := by
      cases exec_effect h <;> first | rfl | contradiction
    exact ⟨config, config, hc, hsame.trans hc, hvalid, rfl, .inl rfl⟩

theorem config_step {l : Label τ ρ} (h : Configured w) (hs : step A H w l = some w') :
    ∃ config config', w.config = some config ∧ w'.config = some config' ∧ config'.Valid ∧
      config'.terms = config.terms ∧ (config' = config ∨ ∃ env c, l = .invoke env c ∧ env.auth config.admin = true) := by
  obtain ⟨config, hc, hvalid⟩ := h
  have hkept : w'.config = w.config → ∃ config config', w.config = some config ∧ w'.config = some config' ∧
      config'.Valid ∧ config'.terms = config.terms ∧
        (config' = config ∨ ∃ env c, l = .invoke env c ∧ env.auth config.admin = true) :=
    fun hsame => ⟨config, config, hc, hsame.trans hc, hvalid, rfl, .inl rfl⟩
  cases l with
  | invoke env c =>
    cases hs
    cases he : exec A H env w c with
    | error e =>
      rw [invoke, he] at hkept ⊢
      exact hkept rfl
    | ok w₁ =>
      rw [invoke, he]
      obtain ⟨config, config', hc, hc', hvalid', hterms, hcause⟩ := exec_config he ⟨config, hc, hvalid⟩
      exact ⟨config, config', hc, hc', hvalid', hterms, hcause.imp_right fun hauth => ⟨env, c, rfl, hauth⟩⟩
  | advance l => exact hkept (congrArg Storage.config (step_outside hs (by simp)))
  | outside t r => exact hkept (congrArg Storage.config (step_outside hs (by simp)))

theorem configured_of_reachable (h : Runs.Reachable (system A H) w) : Configured w := by
  refine h.invariant (I := Configured) (fun _ h0 => Deployed.configured h0) fun w l w' hw _ hs => ?_
  obtain ⟨config, config', -, hc', hvalid, -⟩ := config_step hw hs
  exact ⟨config', hc', hvalid⟩

/-- A step that the admin does not authorize. -/
def Label.withoutAdmin (admin : Address) : Label τ ρ → Bool
  | .invoke env _ => !env.auth admin
  | _ => true

/-- In every run the settings stay in their bounds and the terms as they were deployed; and while the admin
authorizes nothing, no setting changes. -/
theorem settings_follow_admin (s : World τ ρ) (hr : Runs.Reachable (system A H) s) :
    ∃ config, s.config = some config ∧ config.Valid ∧
      (∀ w, Runs.Reachable ((system A H).after s) w →
        ∃ config', w.config = some config' ∧ config'.Valid ∧ config'.terms = config.terms) ∧
      ∀ w, Runs.Via ((system A H).after s) (fun _ l => l.withoutAdmin config.admin = true) w → w.config = s.config := by
  obtain ⟨config, hc, hvalid⟩ := configured_of_reachable hr
  refine ⟨config, hc, hvalid, fun w hw => ?_, fun w hw => ?_⟩
  · refine hw.invariant (I := fun w => ∃ config', w.config = some config' ∧ config'.Valid ∧
      config'.terms = config.terms) ?_ ?_
    · rintro w rfl
      exact ⟨config, hc, hvalid, rfl⟩
    · rintro w l w' ⟨config₁, hc₁, hvalid₁, hterms₁⟩ - hs
      obtain ⟨config₂, config', hc₂, hc', hvalid', hterms, -⟩ := config_step ⟨config₁, hc₁, hvalid₁⟩ hs
      obtain rfl : config₁ = config₂ := Option.some.inj (hc₁.symm.trans hc₂)
      exact ⟨config', hc', hvalid', hterms.trans hterms₁⟩
  · have hsame : w.config = some config := by
      refine hw.invariant (I := fun w => w.config = some config) ?_ ?_
      · rintro w rfl
        exact hc
      · rintro w l w' hc₁ hquiet hs
        obtain ⟨config₂, config', hc₂, hc', -, -, hcause⟩ := config_step ⟨config, hc₁, hvalid⟩ hs
        obtain rfl : config = config₂ := Option.some.inj (hc₁.symm.trans hc₂)
        rcases hcause with rfl | ⟨env, c, rfl, hauth⟩
        · exact hc'
        · have hnot : (!env.auth config.admin) = true := hquiet
          rw [hauth] at hnot
          cases hnot
    rw [hsame, hc]

end

/-! ## Leaving -/

section

variable {A : Arith} {H : Host τ ρ} {env : Env} {w : World τ ρ}

theorem requireAuth_eq_ok {a : Address} {u : Unit} :
    requireAuth H env a = .ok u ↔ a ≠ H.self ∧ env.auth a = true := by
  rw [requireAuth, failIf_eq_ok, not_or, Bool.not_eq_false]

theorem withdrawSupply_succeeds {supplier : Address} {amount : Int} (hw : Configured w) :
    (∃ w', withdrawSupply A H env w supplier amount = .ok w') ↔
      supplier ≠ H.self ∧ env.auth supplier = true ∧ 0 < amount ∧ amount ≤ getSupplyBalance A w supplier ∧
        amount ≤ availableIn A (projected A w) ∧ (H.token.transfer w.token H.self supplier amount).isSome = true := by
  obtain ⟨config, hc, -⟩ := hw
  simp only [withdrawSupply, bind_eq_ok, failIf_eq_ok, okOr_eq_ok, transfer_eq_ok]
  constructor
  · rintro ⟨w', _, hauth, _, _, _, hamount, _, hvalue, _, havailable, w₁, ⟨t, ht, rfl⟩, -⟩
    obtain ⟨hself, hauth⟩ := requireAuth_eq_ok.mp hauth
    exact ⟨hself, hauth, not_le.mp hamount, not_lt.mp hvalue, not_lt.mp havailable, Option.isSome_iff_exists.mpr ⟨t, ht⟩⟩
  · rintro ⟨hself, hauth, hamount, hvalue, havailable, hpaid⟩
    obtain ⟨t, ht⟩ := Option.isSome_iff_exists.mp hpaid
    exact ⟨_, (), requireAuth_eq_ok.mpr ⟨hself, hauth⟩, config, hc, (), not_le.mpr hamount, (), not_lt.mpr hvalue, (),
      not_lt.mpr havailable, _, ⟨t, ht, rfl⟩, rfl⟩

theorem repay_succeeds {repayer : Address} {txid : BytesN 32} {amount : Int} (hw : Configured w) :
    (∃ w', repay A H env w repayer txid amount = .ok w') ↔
      repayer ≠ H.self ∧ env.auth repayer = true ∧
        (∃ pos, w.positions.lookup txid = some pos ∧ pos.status = .Active ∧
          amount ≤ accruedDebt A pos (projected A w).borrowIndex) ∧
        (H.token.transfer w.token repayer H.self amount).isSome = true := by
  obtain ⟨config, hc, -⟩ := hw
  simp only [repay, bind_eq_ok, failIf_eq_ok, okOr_eq_ok, transfer_eq_ok]
  constructor
  · rintro ⟨w', _, hauth, _, _, pos, hpos, _, hactive, _, hdebt, w₁, ⟨t, ht, rfl⟩, -⟩
    obtain ⟨hself, hauth⟩ := requireAuth_eq_ok.mp hauth
    exact ⟨hself, hauth, ⟨pos, hpos, not_not.mp hactive, not_lt.mp hdebt⟩, Option.isSome_iff_exists.mpr ⟨t, ht⟩⟩
  · rintro ⟨hself, hauth, ⟨pos, hpos, hactive, hdebt⟩, hpaid⟩
    obtain ⟨t, ht⟩ := Option.isSome_iff_exists.mp hpaid
    exact ⟨_, (), requireAuth_eq_ok.mpr ⟨hself, hauth⟩, config, hc, pos, hpos, (), not_not.mpr hactive, (),
      not_lt.mpr hdebt, _, ⟨t, ht, rfl⟩, rfl⟩

/-- The ways out are open whatever the settings: exactly when withdrawals and repayments succeed; and a run
of them, with any settings made in between, leaves what the run without the settings leaves. -/
theorem exits_ungated (H : Host τ ρ) (s : World τ ρ) (hr : Runs.Reachable (system .i128 H) s) :
    (∀ env supplier amount, (∃ w', withdrawSupply .i128 H env s supplier amount = .ok w') ↔
      supplier ≠ H.self ∧ env.auth supplier = true ∧ 0 < amount ∧ amount ≤ getSupplyBalance .i128 s supplier ∧
        amount ≤ availableIn .i128 (projected .i128 s) ∧
        (H.token.transfer s.token H.self supplier amount).isSome = true) ∧
    (∀ env repayer txid amount, (∃ w', repay .i128 H env s repayer txid amount = .ok w') ↔
      repayer ≠ H.self ∧ env.auth repayer = true ∧
        (∃ pos, s.positions.lookup txid = some pos ∧ pos.status = .Active ∧
          amount ≤ accruedDebt .i128 pos (projected .i128 s).borrowIndex) ∧
        (H.token.transfer s.token repayer H.self amount).isSome = true) ∧
    ∀ ls w, (∀ l ∈ ls, l.leads = true ∨ l.sets = true) → (system .i128 H).replay s ls = some w →
      ∃ v, (system .i128 H).replay s (ls.filter fun l => !l.sets) = some v ∧ Agree w v := by
  have hw := configured_of_reachable hr
  obtain ⟨config, hc, -⟩ := id hw
  have hsome : s.config.isSome = true := by rw [hc]; rfl
  exact ⟨fun env supplier amount => withdrawSupply_succeeds hw, fun env repayer txid amount => repay_succeeds hw,
    fun ls w hls hrun => replay_agree hls (Agree.refl hsome) hrun⟩

end

namespace Demo

/-- The ways out of a contract that is paused and has lost its oracle. -/
def pausedSteps : List Step :=
  [.invoke (env START) (.setPaused admin true), .invoke (env START) (.setOracle admin bob), .advance (ledger 10),
   .invoke (env START) (.repay alice (txidOf aliceDeposit) 900), .invoke (env START) (.setSpvContract admin bob),
   .invoke (env START) (.withdrawSupply lender 800)]

end Demo

/-- Alice repays and the lender leaves, as if nothing had been set. -/
theorem exits_ungated_paused : ∃ s w v : Demo.State, supplyBalanceOf w Demo.lender < supplyBalanceOf s Demo.lender ∧
    (system .i128 (Demo.host [Demo.aliceDeposit] 900000)).replay s (Demo.pausedSteps.filter fun l => !l.sets) = some v ∧
      v.supplyBalances = w.supplyBalances := by
  have hrun : ((system .i128 (Demo.host [Demo.aliceDeposit] 900000)).replay Demo.world Demo.lentSteps).any (fun s =>
      ((system .i128 (Demo.host [Demo.aliceDeposit] 900000)).replay s Demo.pausedSteps).any fun w =>
        decide (supplyBalanceOf w Demo.lender < supplyBalanceOf s Demo.lender)) = true := by
    decide +kernel
  obtain ⟨s, hs, hrun⟩ := (Option.any_eq_true _ _).mp hrun
  obtain ⟨w, hw, hrun⟩ := (Option.any_eq_true _ _).mp hrun
  have hreach : Runs.Reachable (system .i128 (Demo.host [Demo.aliceDeposit] 900000)) s :=
    Runs.Via.replay (.init Demo.world_deployed) hs
  have hsteps : ∀ l ∈ Demo.pausedSteps, l.leads = true ∨ l.sets = true := by
    intro l hl
    simp only [Demo.pausedSteps, List.mem_cons, List.not_mem_nil, or_false] at hl
    rcases hl with rfl | rfl | rfl | rfl | rfl | rfl <;> first | exact .inl rfl | exact .inr rfl
  obtain ⟨v, hv, hagree⟩ := (exits_ungated (Demo.host [Demo.aliceDeposit] 900000) s hreach).2.2 _ w hsteps hw
  refine ⟨s, w, v, of_decide_eq_true hrun, hv, ?_⟩
  rw [hagree.same]

/-- The settings of the paused contract, and its terms. -/
theorem settings_follow_admin_paused : ∃ s w : Demo.State, w.config ≠ s.config ∧
    ∃ config config', s.config = some config ∧ w.config = some config' ∧ config'.terms = config.terms := by
  have hrun : ((system .i128 (Demo.host [Demo.aliceDeposit] 900000)).replay Demo.world Demo.lentSteps).any (fun s =>
      ((system .i128 (Demo.host [Demo.aliceDeposit] 900000)).replay s Demo.pausedSteps).any fun w =>
        decide (w.config ≠ s.config)) = true := by
    decide +kernel
  obtain ⟨s, hs, hrun⟩ := (Option.any_eq_true _ _).mp hrun
  obtain ⟨w, hw, hrun⟩ := (Option.any_eq_true _ _).mp hrun
  have hreach : Runs.Reachable (system .i128 (Demo.host [Demo.aliceDeposit] 900000)) s :=
    Runs.Via.replay (.init Demo.world_deployed) hs
  obtain ⟨config, hc, -, hterms, -⟩ := settings_follow_admin s hreach
  obtain ⟨config', hc', -, hsame⟩ := hterms w (Runs.Via.replay (.init rfl) hw)
  exact ⟨s, w, of_decide_eq_true hrun, config, config', hc, hc', hsame⟩

end Writz.Lend
