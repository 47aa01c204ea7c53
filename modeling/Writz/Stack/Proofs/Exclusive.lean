import Writz.Stack.Deployment
import Writz.BitcoinSpv.Proofs.Effects
import Writz.Lend.Proofs.Effects
import Writz.Util.Registry

/-!
# Proofs: one loan per Bitcoin transaction

The light client's consumed markers and the pools' positions are a shared registry: every step is one
of its changes. A closed or liquidated position is final.
-/

namespace Writz.Stack

variable {τ : Type}

/-- The consumed markers, and the positions of every pool. -/
def registryOf (s : State τ) : Registry (BytesN 32) Address Lend.Position where
  consumed txid := ∃ b, s.spv.consumed.lookup txid = some b
  held a txid := (s.lends.lookup a).bind fun storage => storage.positions.lookup txid

/-- A position that no call changes any more. -/
def Final (pos : Lend.Position) : Prop := pos.status ≠ .Active

theorem answer_eq_some {α : Type} {r : Spv.Result α} {a : α} : answer r = some a ↔ r = .ok a := by
  cases r <;> simp [answer, Except.toOption]

theorem registry_ext {κ ι ν : Type} {r r' : Registry κ ι ν}
    (hc : ∀ k, r.consumed k ↔ r'.consumed k) (hh : ∀ i k, r.held i k = r'.held i k) : r = r' := by
  cases r
  cases r'
  obtain rfl := funext fun k => propext (hc k)
  obtain rfl := funext fun i => funext fun k => hh i k
  rfl

/-! ## The light client's calls -/

section

variable {C : Crypto} {auth : Spv.Auth} {ledger : Ledger} {s s' : Spv.Storage}

/-- A call to the light client keeps the consumed markers or adds one. -/
theorem consumed_of_effect {c : Spv.Call} (e : Spv.Effect C auth ledger s c s') :
    s'.consumed = s.consumed ∨
      ∃ txid, s.consumed.lookup txid = none ∧ s'.consumed = s.consumed.insert txid true := by
  cases e with
  | @consume consumer txid hauth hnew => exact .inr ⟨txid, hnew, rfl⟩
  | checkpoint | stored | adopted | consumer | configure => exact .inl rfl

theorem consumed_of_consumeDeposit {consumer : Address} {txid : BytesN 32}
    (h : Spv.consumeDeposit auth s consumer txid = .ok s') :
    s.consumed.lookup txid = none ∧ s'.consumed = s.consumed.insert txid true := by
  simp only [Spv.consumeDeposit, bind_eq_ok, failIf_eq_ok] at h
  obtain ⟨_, -, config, -, _, -, _, hnew, h⟩ := h
  cases h
  simp only [Spv.isConsumed, Option.isSome_iff_ne_none, ne_eq, not_not] at hnew
  exact ⟨hnew, rfl⟩

end

/-! ## The pools' calls -/

section

variable {ρ : Type} {A : Arith} {H : Lend.Host τ ρ} {w w' : Lend.World τ ρ}

/-- What a pool's call does to its positions and to the light client. -/
theorem positions_of_effect {c : Lend.Call} (e : Lend.Effect A H w c w') :
    (w'.positions = w.positions ∧ w'.spv = w.spv) ∨
      (∃ txid pos pos', w.positions.lookup txid = some pos ∧ pos.status = .Active ∧
        w'.positions = w.positions.insert txid pos' ∧ w'.spv = w.spv) ∨
      ∃ txid pos config, w.config = some config ∧ w.positions.lookup txid = none ∧
        H.spv.consumeDeposit w.spv config.spvContract H.self txid = some w'.spv ∧
        w'.positions = w.positions.insert txid pos := by
  cases e with
  | deposit hc hnew hcons => exact .inr (.inr ⟨_, _, _, hc, hnew, hcons, rfl⟩)
  | borrow hself hpos hactive => exact .inr (.inl ⟨_, _, _, hpos, hactive, rfl, rfl⟩)
  | repay hself hpos hactive => exact .inr (.inl ⟨_, _, _, hpos, hactive, rfl, rfl⟩)
  | liquidate hself hc hpos hactive => exact .inr (.inl ⟨_, _, _, hpos, hactive, rfl, rfl⟩)
  | supply | withdraw | heartbeat | configure | psbt => exact .inl ⟨rfl, rfl⟩

end

/-! ## The refinement -/

variable {A : Arith} {N : Host τ} {s s' : State τ}

theorem held_afterCall (a b : Address) (w : Lend.World τ Spv.Storage) (txid : BytesN 32) :
    (registryOf (afterCall s a w)).held b txid =
      if b = a then w.positions.lookup txid else (registryOf s).held b txid := by
  unfold registryOf afterCall
  dsimp only
  rw [Store.lookup_insert_eq_ite]
  split_ifs <;> rfl

/-- One more consumed marker. -/
theorem consumed_insert {consumed : Store (BytesN 32) Bool} {txid k : BytesN 32} :
    (∃ b, (consumed.insert txid true).lookup k = some b) ↔
      k = txid ∨ ∃ b, consumed.lookup k = some b := by
  rw [Store.lookup_insert_eq_ite]
  split_ifs with h <;> simp [h]

/-- A call to a pool is a change of the registry. -/
theorem lend_change {a : Address} {storage : Lend.Storage} (hl : s.lends.lookup a = some storage)
    (hpoint : AllPointAt N s) (env : Lend.Env) (c : Lend.Call) :
    Registry.Change Final (registryOf s)
      (registryOf (afterCall s a (Lend.invoke A (N.pool a) env (worldOf s storage) c))) := by
  have hheld : ∀ txid, (registryOf s).held a txid = storage.positions.lookup txid := by
    intro txid
    change (s.lends.lookup a).bind _ = _
    rw [hl]
    rfl
  -- a call that changes neither the positions nor the light client
  have hkeep : ∀ w : Lend.World τ Spv.Storage, w.positions = storage.positions → w.spv = s.spv →
      Registry.Change Final (registryOf s) (registryOf (afterCall s a w)) := by
    intro w hpos hspv
    rw [show registryOf (afterCall s a w) = registryOf s from
      registry_ext (fun k => by change (∃ b, w.spv.consumed.lookup k = some b) ↔ _; rw [hspv]; rfl)
        fun b txid => by
          rw [held_afterCall, hpos]
          split_ifs with hb
          · rw [hb, hheld]
          · rfl]
    exact .keep
  -- an entry written
  have hwrite : ∀ (w : Lend.World τ Spv.Storage) txid pos,
      w.positions = storage.positions.insert txid pos → ∀ b k,
        (registryOf (afterCall s a w)).held b k = ((registryOf s).write a txid pos).held b k := by
    intro w txid pos hpos b k
    rw [held_afterCall, hpos]
    by_cases hb : b = a ∧ k = txid
    · obtain ⟨rfl, rfl⟩ := hb
      rw [Registry.held_write_self, if_pos rfl, Store.lookup_insert_eq_ite, if_pos rfl]
    · rw [Registry.held_write_of_ne (not_and_or.mp hb)]
      split_ifs with hba
      · rw [Store.lookup_insert_eq_ite, if_neg fun hk => hb ⟨hba, hk⟩, hba, hheld]
      · rfl
  rcases Lend.invoke_cases A (N.pool a) env (worldOf s storage) c with he | he
  · rw [he]
    exact hkeep _ rfl rfl
  · generalize Lend.invoke A (N.pool a) env (worldOf s storage) c = w at he
    rcases positions_of_effect he with ⟨hpos, hspv⟩ | ⟨txid, pos, pos', hl', hactive, hpos, hspv⟩ |
      ⟨txid, pos, config, hconfig, -, hcons, hpos⟩
    · exact hkeep w hpos hspv
    · rw [show registryOf (afterCall s a w) = (registryOf s).write a txid pos' from
        registry_ext (fun k => by change (∃ b, w.spv.consumed.lookup k = some b) ↔ _; rw [hspv]; rfl)
          (hwrite w txid pos' hpos)]
      exact .update ((hheld txid).trans hl') fun hf => hf hactive
    · -- the pool points at the light client, which consumes the transaction for the first time
      have haddr : config.spvContract = N.spvAddress := hpoint a storage config hl hconfig
      change (if config.spvContract = N.spvAddress then _ else _) = some w.spv at hcons
      rw [if_pos haddr] at hcons
      obtain ⟨hnew, hconsumed⟩ := consumed_of_consumeDeposit (answer_eq_some.mp hcons)
      change s.spv.consumed.lookup txid = none at hnew
      rw [show registryOf (afterCall s a w) = ((registryOf s).consume txid).write a txid pos from
        registry_ext (fun k => by
            change (∃ b, w.spv.consumed.lookup k = some b) ↔ k = txid ∨ _
            rw [hconsumed]
            exact consumed_insert)
          (hwrite w txid pos hpos)]
      exact .enter fun ⟨b, hb⟩ => by
        rw [hnew] at hb
        cases hb

/-- Every step is a change of the registry. -/
theorem step_change {l : Label τ} (hpoint : AllPointAt N s) (hs : step A N s l = some s') :
    Registry.Change Final (registryOf s) (registryOf s') := by
  cases l with
  | spv auth c =>
    cases hs
    rcases Spv.invoke_cases N.crypto auth s.ledger s.spv c with he | he
    · rw [he]
      exact .keep
    · generalize Spv.invoke N.crypto auth s.ledger s.spv c = spv at he
      rcases consumed_of_effect he with h | ⟨txid, hnew, h⟩
      · rw [show registryOf { s with spv := spv } = registryOf s from
          registry_ext (fun k => by change (∃ b, spv.consumed.lookup k = some b) ↔ _; rw [h]; rfl)
            fun _ _ => rfl]
        exact .keep
      · rw [show registryOf { s with spv := spv } = (registryOf s).consume txid from
          registry_ext (fun k => by
              change (∃ b, spv.consumed.lookup k = some b) ↔ k = txid ∨ _
              rw [h]
              exact consumed_insert)
            fun _ _ => rfl]
        exact .mark fun ⟨b, hb⟩ => by
          rw [hnew] at hb
          cases hb
  | lend a env c =>
    obtain ⟨storage, hl, rfl⟩ := Option.map_eq_some_iff.mp hs
    exact lend_change hl hpoint env c
  | deploy a admin spvContract usdcToken oracle keeper relayer protocolPubkey minConfirmations
      minDepositSatoshis entryTtlLedgers =>
    simp only [step] at hs
    split_ifs at hs with hfree
    rw [Option.isSome_iff_ne_none, not_not] at hfree
    split at hs
    · next storage hok =>
      cases hs
      -- a new pool has no positions
      have hempty : storage.positions = ∅ := by
        simp only [Lend.construct, bind_eq_ok, failIf_eq_ok] at hok
        obtain ⟨_, -, _, -, _, -, hok⟩ := hok
        rw [← Except.ok.inj hok]
      rw [show registryOf { s with lends := s.lends.insert a storage } = registryOf s from
        registry_ext (fun k => Iff.rfl) fun b txid => by
          unfold registryOf
          dsimp only
          rw [Store.lookup_insert_eq_ite]
          split_ifs with hb
          · rw [hb, hfree, Option.bind_some, hempty]
            rfl
          · rfl]
      exact .keep
    · cases hs
  | advance l =>
    simp only [step] at hs
    split_ifs at hs
    cases hs
    exact .keep
  | outside t =>
    cases hs
    exact .keep

/-! ## Runs -/

/-- The condition on the runs: every pool points at the light client in every state. -/
abbrev Pointed (N : Host τ) (s : State τ) (_ : Label τ) : Prop := AllPointAt N s

theorem exclusive_of_deployed (h : Deployed s) : Registry.Exclusive (registryOf s) := by
  have hnone : ∀ a txid, (registryOf s).held a txid = none := by
    intro a txid
    unfold registryOf
    dsimp only
    rw [h.2]
    rfl
  exact ⟨fun a txid pos hp => absurd ((hnone a txid).symm.trans hp) (by simp),
    fun a b txid p q hp => absurd ((hnone a txid).symm.trans hp) (by simp)⟩

theorem exclusive_of_via (h : Runs.Via (system A N) (Pointed N) s) :
    Registry.Exclusive (registryOf s) :=
  h.invariant (I := fun s => Registry.Exclusive (registryOf s)) (fun _ h0 => exclusive_of_deployed h0)
    fun _ _ _ hI hp hs => (step_change hp hs).exclusive hI

theorem persists_of_via (h : Runs.Via (system A N) (Pointed N) s)
    (h' : Runs.Via ((system A N).after s) (Pointed N) s') :
    Registry.Persists Final (registryOf s) (registryOf s') := by
  induction h' with
  | init h0 =>
    cases h0
    exact .refl _
  | step hrun hp hs ih =>
    exact ih.trans ((step_change hp hs).persists (exclusive_of_via (h.append hrun)))

/-- The position of a pool under a transaction. -/
def positionAt (s : State τ) (a : Address) (txid : BytesN 32) : Option Lend.Position :=
  (s.lends.lookup a).bind fun storage => storage.positions.lookup txid

theorem isConsumed_iff {txid : BytesN 32} :
    Spv.isConsumed s.spv txid = true ↔ (registryOf s).consumed txid :=
  Option.isSome_iff_exists

/-- Over the whole of a run, whatever the pools, the light client's admin and anyone else call, a
transaction that backs a position at one pool never backs one at another; it is consumed, and what is
consumed stays so; and a position stays, unchanged once it is closed or liquidated. -/
theorem one_loan_per_transaction (h : Runs.Via (system A N) (Pointed N) s)
    (h' : Runs.Via ((system A N).after s) (Pointed N) s') :
    (∀ a b txid p q, positionAt s a txid = some p → positionAt s' b txid = some q → a = b) ∧
      (∀ a txid p, positionAt s a txid = some p → Spv.isConsumed s.spv txid = true) ∧
      (∀ txid, Spv.isConsumed s.spv txid = true → Spv.isConsumed s'.spv txid = true) ∧
      ∀ a txid p, positionAt s a txid = some p → ∃ p', positionAt s' a txid = some p' ∧
        (p.status ≠ .Active → p' = p) := by
  have hpersists := persists_of_via h h'
  have hexclusive := exclusive_of_via h
  have hexclusive' := exclusive_of_via (h.append h')
  refine ⟨fun a b txid p q hp hq => ?_, fun a txid p hp => ?_, fun txid hc => ?_,
    hpersists.held⟩
  · obtain ⟨p', hp', -⟩ := hpersists.held a txid p hp
    exact hexclusive'.unique a b txid p' q hp' hq
  · exact isConsumed_iff.mpr (hexclusive.held_consumed a txid p hp)
  · exact isConsumed_iff.mpr (hpersists.consumed txid (isConsumed_iff.mp hc))

/-! ## On the two pools -/

/-- Whether every pool points at the light client. -/
def pointedCheck (N : Host τ) (s : State τ) (_ : Label τ) : Bool :=
  decide (∀ e ∈ s.lends.entries, ∀ config ∈ e.2.config, config.spvContract = N.spvAddress)

theorem pointed_of_check (s : State τ) (l : Label τ) (h : pointedCheck N s l = true) :
    Pointed N s l := fun a storage config hl hc =>
  of_decide_eq_true h ⟨a, storage⟩ (Finmap.lookup_eq_some_iff.mp hl) config hc

/-- Alice deposits a transaction at the first pool, and then tries the second with the first removed
from the registry: the second never gets a position. -/
theorem one_loan_per_transaction_deposited :
    ∃ s s' : State (Store Address Nat),
      (positionAt s Demo.firstPool (Lend.Demo.txidOf Demo.firstDeposit)).isSome = true ∧
        Spv.isConsumer s'.spv Demo.firstPool = false ∧
        ∀ b q, positionAt s' b (Lend.Demo.txidOf Demo.firstDeposit) = some q →
          b = Demo.firstPool := by
  have hrun : ((system .i128 Demo.host).replayIf (pointedCheck Demo.host) Demo.start
      Demo.firstSteps).any (fun s =>
        (positionAt s Demo.firstPool (Lend.Demo.txidOf Demo.firstDeposit)).isSome
          && ((system .i128 Demo.host).replayIf (pointedCheck Demo.host) s Demo.secondSteps).any
            fun s' => !Spv.isConsumer s'.spv Demo.firstPool) = true := by
    decide +kernel
  obtain ⟨s, hs, hp⟩ := (Option.any_eq_true _ _).mp hrun
  rw [Bool.and_eq_true] at hp
  obtain ⟨hp, hrest⟩ := hp
  obtain ⟨s', hs', hremoved⟩ := (Option.any_eq_true _ _).mp hrest
  have h : Runs.Via (system .i128 Demo.host) (Pointed Demo.host) s :=
    (Runs.Via.init Demo.start_deployed).replayIf pointed_of_check hs
  have h' : Runs.Via ((system .i128 Demo.host).after s) (Pointed Demo.host) s' :=
    (Runs.Via.init rfl).replayIf pointed_of_check hs'
  obtain ⟨p, hpos⟩ := Option.isSome_iff_exists.mp hp
  exact ⟨s, s', hp, by simpa using hremoved, fun b q hq =>
    ((one_loan_per_transaction h h').1 _ _ _ _ _ hpos hq).symm⟩

end Writz.Stack
