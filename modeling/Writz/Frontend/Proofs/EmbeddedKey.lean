import Writz.Frontend.EmbeddedKey

/-!
# Proofs: refused payments of the Signet test key

The loop goes on until the coins cover the amount with change. Where no number of the largest coins does, it
takes them all, also the ones that cost more than they bring, and a payment that fewer coins afford without
change may be refused.
-/

namespace Writz.Frontend.EmbeddedKey

open Node CoinSelection

section Coins

variable {toScript own : Bytes} {amountSats : Nat} {feeRate : Rat} {utxos coins chosen : List Utxo}

/-- The estimated size is what it says, rounded up once. -/
theorem paymentVsize_eq (inputs : Nat) (outputScripts : List Bytes) :
    paymentVsize inputs outputScripts = 11 + 68 * inputs + (outputScripts.map outputVbytes).sum := by
  have hsum : ∀ n : Nat, (21 / 2 + 68 * inputs + n : Rat) = 21 / 2 + ((68 * inputs + n : Nat) : Int) := by
    intro n
    push_cast
    ring
  have hceil : (21 / 2 : Rat).ceil = 11 := by decide +kernel
  rw [paymentVsize, hsum, Rat.ceil_add_intCast, hceil]
  omega

/-! ## The largest coins -/

/-- What coins are worth. -/
abbrev worth (coins : List Utxo) : Nat := total Utxo.value coins

theorem worth_nil : worth [] = 0 := rfl

theorem worth_snoc (chosen : List Utxo) (u : Utxo) : worth (chosen ++ [u]) = worth chosen + u.value := by
  rw [worth, total_append, total_singleton]

theorem largestFirst_perm (utxos : List Utxo) : (largestFirst utxos).Perm utxos :=
  List.perm_insertionSort _ utxos

theorem largestFirst_desc (utxos : List Utxo) :
    (largestFirst utxos).Pairwise fun a b => b.value ≤ a.value := by
  have : Std.Total fun a b : Utxo => b.value ≤ a.value := ⟨fun a b => Nat.le_total b.value a.value⟩
  have : IsTrans Utxo fun a b => b.value ≤ a.value := ⟨fun a b c hab hbc => hbc.trans hab⟩
  exact List.pairwise_insertionSort _ utxos

/-- Coins cover the amount and the fee of spending them without change. -/
abbrev CoversNoChange (toScript : Bytes) (amountSats : Nat) (feeRate : Rat) (coins : List Utxo) : Prop :=
  Covers Utxo.value (fun n => feeAt feeRate (paymentVsize n [toScript])) amountSats coins

/-- Coins cover the amount and the fee of spending them with change. -/
abbrev CoversWithChange (toScript own : Bytes) (amountSats : Nat) (feeRate : Rat) (coins : List Utxo) : Prop :=
  Covers Utxo.value (fun n => feeAt feeRate (paymentVsize n [toScript, own])) amountSats coins

theorem coversNoChange_iff : CoversNoChange toScript amountSats feeRate coins ↔
    (amountSats : Int) + feeAt feeRate (paymentVsize coins.length [toScript]) ≤ worth coins := Iff.rfl

theorem coversWithChange_iff : CoversWithChange toScript own amountSats feeRate coins ↔
    (amountSats : Int) + feeAt feeRate (paymentVsize coins.length [toScript, own]) ≤ worth coins := Iff.rfl

/-- A change output only adds to the size. -/
theorem CoversWithChange.noChange (hrate : 0 ≤ feeRate)
    (h : CoversWithChange toScript own amountSats feeRate coins) :
    CoversNoChange toScript amountSats feeRate coins := by
  refine Covers.mono h (feeAt_mono hrate ?_)
  rw [paymentVsize_eq, paymentVsize_eq]
  simp only [List.map_cons, List.map_nil, List.sum_cons, List.sum_nil]
  omega

/-! ## The loop -/

/-- The loop stops at the first coins that cover the amount with change, or takes them all. -/
theorem choose_cases : ∀ chosen : List Utxo,
    let result := choose toScript own amountSats feeRate chosen (worth chosen) coins
    result.2 = worth result.1 ∧
      ((CoversWithChange toScript own amountSats feeRate result.1 ∧
          ∃ taken, taken <+: coins ∧ result.1 = chosen ++ taken) ∨
        (result.1 = chosen ++ coins ∧
          ∀ taken, taken ≠ [] → taken <+: coins →
            ¬ CoversWithChange toScript own amountSats feeRate (chosen ++ taken))) := by
  induction coins with
  | nil =>
    intro chosen result
    refine ⟨rfl, .inr ⟨(List.append_nil chosen).symm, ?_⟩⟩
    intro taken hne htaken
    exact absurd (List.prefix_nil.mp htaken) hne
  | cons u coins ih =>
    intro chosen result
    by_cases hcovers : CoversWithChange toScript own amountSats feeRate (chosen ++ [u])
    · have hresult : result = (chosen ++ [u], worth (chosen ++ [u])) := by
        simp only [result, choose, ← worth_snoc]
        exact if_pos hcovers
      rw [hresult]
      exact ⟨rfl, .inl ⟨hcovers, [u], List.prefix_append [u] coins, rfl⟩⟩
    · have hresult : result
          = choose toScript own amountSats feeRate (chosen ++ [u]) (worth (chosen ++ [u])) coins := by
        simp only [result, choose, ← worth_snoc]
        exact if_neg hcovers
      rw [hresult]
      obtain ⟨hworth, hcases⟩ := ih (chosen ++ [u])
      refine ⟨hworth, ?_⟩
      rcases hcases with ⟨hdone, taken, htaken, heq⟩ | ⟨heq, hnone⟩
      · left
        refine ⟨hdone, u :: taken, (List.prefix_cons_inj u).mpr htaken, ?_⟩
        rw [heq, List.append_assoc]
        rfl
      · right
        refine ⟨?_, fun taken hne htaken => ?_⟩
        · rw [heq, List.append_assoc]
          rfl
        · cases taken with
          | nil => exact absurd rfl hne
          | cons v taken =>
            obtain ⟨hv, hrest⟩ := List.cons_prefix_cons.mp htaken
            subst hv
            rw [← List.singleton_append, ← List.append_assoc]
            by_cases hlast : taken = []
            · rw [hlast, List.append_nil]
              exact hcovers
            · exact hnone taken hlast hrest

/-- The coins that the loop takes. -/
def chosenCoins (toScript own : Bytes) (amountSats : Nat) (feeRate : Rat) (utxos : List Utxo) : List Utxo :=
  (choose toScript own amountSats feeRate [] 0 (largestFirst utxos)).1

theorem choose_eq : choose toScript own amountSats feeRate [] 0 (largestFirst utxos)
    = (chosenCoins toScript own amountSats feeRate utxos,
      worth (chosenCoins toScript own amountSats feeRate utxos)) := by
  have hworth := (@choose_cases toScript own amountSats feeRate (largestFirst utxos) []).1
  exact Prod.ext rfl hworth

/-- Where some first coins cover the amount with change, the loop ends with such; else with all coins. -/
theorem chosenCoins_cases :
    let chosen := chosenCoins toScript own amountSats feeRate utxos
    chosen <+: largestFirst utxos ∧
      (CoversWithChange toScript own amountSats feeRate chosen ∨
        (chosen = largestFirst utxos ∧ ∀ first, first <+: largestFirst utxos →
          CoversWithChange toScript own amountSats feeRate first → first = [])) := by
  intro chosen
  obtain ⟨-, hcases⟩ := @choose_cases toScript own amountSats feeRate (largestFirst utxos) []
  rcases hcases with ⟨hcovers, taken, htaken, heq⟩ | ⟨heq, hnone⟩
  · refine ⟨?_, .inl hcovers⟩
    change (choose _ _ _ _ _ _ _).1 <+: _
    rw [← worth_nil, heq]
    exact htaken
  · have hall : chosen = largestFirst utxos := heq
    refine ⟨hall ▸ List.prefix_refl _, .inr ⟨hall, fun first hfirst hcovers => ?_⟩⟩
    by_contra hne
    exact hnone first hne hfirst hcovers

end Coins

/-! ## The payment -/

section Payment

variable {W : Wallet} {utxos : List Utxo} {recipient : Text} {toScript : Bytes} {amountSats : Nat}
  {feeRate : Rat}

/-- The estimated size of the transaction that is built: the change is an output where there is any. -/
def builtVsize (toScript own : Bytes) (inputs : Nat) (changeSats : Int) : Nat :=
  paymentVsize inputs (toScript :: if changeSats > 0 then [own] else [])

/-- The payment is of coins that are worth the amount, the change and the fee; the change is none or not
dust, and the fee covers the size. -/
structure Paid (W : Wallet) (utxos : List Utxo) (recipient : Text) (toScript : Bytes) (amountSats : Nat)
    (feeRate : Rat) (inputs : List Utxo) (payment : Payment) : Prop where
  coins : inputs.Subperm utxos
  signed : W.sign inputs recipient amountSats payment.changeSats = some (payment.txHex, payment.txid)
  balance : (worth inputs : Int) = amountSats + payment.changeSats + payment.feeSats
  change : payment.changeSats = 0 ∨ DUST_SATS ≤ payment.changeSats
  fee : feeAt feeRate (builtVsize toScript W.own inputs.length payment.changeSats) ≤ payment.feeSats

/-- A payment is refused for lack of coins only where no coins afford it, and one that is built is paid for. -/
structure RefusesOnlyUnaffordable (W : Wallet) (utxos : List Utxo) (recipient : Text) (toScript : Bytes)
    (amountSats : Nat) (feeRate : Rat) : Prop where
  refused : ∀ available needed,
    buildPayment W utxos recipient amountSats feeRate = .error (.notEnoughBitcoin available needed) →
      ∀ coins, coins.Subperm utxos → ¬ CoversNoChange toScript amountSats feeRate coins
  paid : ∀ payment, buildPayment W utxos recipient amountSats feeRate = .ok payment →
    ∃ inputs, Paid W utxos recipient toScript amountSats feeRate inputs payment

/-- If some number of the largest coins affords the payment without change, then all coins do, or some
number of the largest affords it with change. -/
def LargestDecide (toScript own : Bytes) (amountSats : Nat) (feeRate : Rat) (utxos : List Utxo) : Prop :=
  (∃ first, first <+: largestFirst utxos ∧ CoversNoChange toScript amountSats feeRate first) →
    CoversNoChange toScript amountSats feeRate (largestFirst utxos) ∨
      ∃ first, first <+: largestFirst utxos ∧ CoversWithChange toScript own amountSats feeRate first

/-- The rest of the build, after the loop. -/
theorem buildPayment_eq (hscript : W.outputScript recipient = some toScript) (hamount : DUST_SATS < amountSats)
    (hsafe : amountSats < 2 ^ 53) (hrate : 1 ≤ feeRate) :
    let chosen := chosenCoins toScript W.own amountSats feeRate utxos
    let feeWithChange := feeAt feeRate (paymentVsize chosen.length [toScript, W.own])
    let feeNoChange := feeAt feeRate (paymentVsize chosen.length [toScript])
    let change := (worth chosen : Int) - amountSats - feeWithChange
    let changeSats := if change < DUST_SATS then 0 else change
    buildPayment W utxos recipient amountSats feeRate
      = if CoversNoChange toScript amountSats feeRate chosen then
          match W.sign chosen recipient amountSats changeSats with
          | none => .error (.error "cannot sign".toList)
          | some (txHex, txid) =>
            .ok { txHex, txid, feeSats := (worth chosen : Int) - amountSats - changeSats, changeSats }
        else .error (.notEnoughBitcoin (worth chosen) (amountSats + feeNoChange)) := by
  intro chosen feeWithChange feeNoChange change changeSats
  have hcheck : (worth chosen : Int) < amountSats + feeNoChange ↔
      ¬ CoversNoChange toScript amountSats feeRate chosen := not_le.symm
  unfold buildPayment failIf
  rw [if_neg (by omega), max_eq_right hrate, hscript]
  simp only [okOr, bind, Except.bind, choose_eq]
  by_cases hcovers : CoversNoChange toScript amountSats feeRate chosen
  · rw [if_pos hcovers, if_neg (fun h => hcheck.mp h hcovers)]
    dsimp only
    cases W.sign chosen recipient amountSats changeSats <;> rfl
  · rw [if_neg hcovers, if_pos (hcheck.mpr hcovers)]

/-- Whatever is built is paid for. -/
theorem paid_of_build (hscript : W.outputScript recipient = some toScript) (hamount : DUST_SATS < amountSats)
    (hsafe : amountSats < 2 ^ 53) (hrate : 1 ≤ feeRate) {payment : Payment}
    (h : buildPayment W utxos recipient amountSats feeRate = .ok payment) :
    Paid W utxos recipient toScript amountSats feeRate (chosenCoins toScript W.own amountSats feeRate utxos)
      payment := by
  have hlimit : (0 : Int) < DUST_SATS := by decide
  rw [buildPayment_eq hscript hamount hsafe hrate] at h
  set chosen := chosenCoins toScript W.own amountSats feeRate utxos with hchosen
  by_cases hcovers : CoversNoChange toScript amountSats feeRate chosen
  · rw [if_pos hcovers] at h
    split at h
    · cases h
    · next txHex txid hsigned =>
      cases h
      have hcoins : chosen.Subperm utxos :=
        chosenCoins_cases.1.sublist.subperm.trans (largestFirst_perm utxos).subperm
      rw [coversNoChange_iff] at hcovers
      by_cases hdust :
          (worth chosen : Int) - amountSats - feeAt feeRate (paymentVsize chosen.length [toScript, W.own])
            < DUST_SATS
      · -- the rest goes to the fee
        simp only [if_pos hdust] at hsigned ⊢
        refine { coins := hcoins, signed := hsigned, balance := ?_, change := .inl rfl, fee := ?_ }
        · dsimp only
          omega
        · simp only [builtVsize, gt_iff_lt, lt_self_iff_false, if_false]
          omega
      · -- change
        simp only [if_neg hdust] at hsigned ⊢
        refine { coins := hcoins, signed := hsigned, balance := ?_, change := .inr (not_lt.mp hdust), fee := ?_ }
        · dsimp only
          omega
        · have hpos : (0 : Int) < (worth chosen : Int) - amountSats
              - feeAt feeRate (paymentVsize chosen.length [toScript, W.own]) := by omega
          simp only [builtVsize, gt_iff_lt, if_pos hpos]
          omega
  · rw [if_neg hcovers] at h
    cases h

/-- A refusal for lack of coins is of the coins that the loop takes. -/
theorem refused_iff (hscript : W.outputScript recipient = some toScript) (hamount : DUST_SATS < amountSats)
    (hsafe : amountSats < 2 ^ 53) (hrate : 1 ≤ feeRate) :
    (∃ available needed,
        buildPayment W utxos recipient amountSats feeRate = .error (.notEnoughBitcoin available needed)) ↔
      ¬ CoversNoChange toScript amountSats feeRate (chosenCoins toScript W.own amountSats feeRate utxos) := by
  rw [buildPayment_eq hscript hamount hsafe hrate]
  constructor
  · rintro ⟨available, needed, h⟩ hcovers
    rw [if_pos hcovers] at h
    split at h <;> cases h
  · intro hcovers
    exact ⟨_, _, if_neg hcovers⟩

/-- No coins at all do not afford a payment. -/
theorem not_coversWithChange_nil {own : Bytes} (hamount : DUST_SATS < amountSats) (hrate : 1 ≤ feeRate) :
    ¬ CoversWithChange toScript own amountSats feeRate [] := by
  have hfee : 0 ≤ feeAt feeRate (paymentVsize ([] : List Utxo).length [toScript, own]) :=
    feeAt_nonneg (zero_le_one.trans hrate)
  rw [coversWithChange_iff, worth_nil]
  omega

/-- Payments are refused only where no coins afford them exactly where the largest coins decide. -/
theorem refuses_only_unaffordable_iff (hscript : W.outputScript recipient = some toScript)
    (hamount : DUST_SATS < amountSats) (hsafe : amountSats < 2 ^ 53) (hrate : 1 ≤ feeRate) :
    RefusesOnlyUnaffordable W utxos recipient toScript amountSats feeRate ↔
      LargestDecide toScript W.own amountSats feeRate utxos := by
  have hrefused := @refused_iff W utxos recipient toScript amountSats feeRate hscript hamount hsafe hrate
  obtain ⟨-, hcases⟩ := @chosenCoins_cases toScript W.own amountSats feeRate utxos
  constructor
  · rintro h ⟨first, hfirst, hcovers⟩
    by_contra hnot
    obtain ⟨hall, hnone⟩ := not_or.mp hnot
    rcases hcases with hchange | ⟨heq, -⟩
    · exact hnone ⟨_, chosenCoins_cases.1, hchange⟩
    · rw [heq] at hrefused
      obtain ⟨available, needed, hbuild⟩ := hrefused.mpr hall
      have hsub : first.Subperm utxos := hfirst.sublist.subperm.trans (largestFirst_perm utxos).subperm
      exact h.refused available needed hbuild first hsub hcovers
  · intro h
    refine { refused := ?_, paid := fun payment hbuild => ⟨_, paid_of_build hscript hamount hsafe hrate hbuild⟩ }
    intro available needed hbuild coins hsub hcovers
    have hchosen := hrefused.mp ⟨available, needed, hbuild⟩
    have hsub' : coins.Subperm (largestFirst utxos) := hsub.trans (largestFirst_perm utxos).symm.subperm
    have hfirst := (exists_covers_iff (largestFirst_desc utxos)).mp ⟨coins, hsub', hcovers⟩
    rcases hcases with hchange | ⟨heq, hnone⟩
    · exact hchosen (hchange.noChange (zero_le_one.trans hrate))
    · rcases h hfirst with hall | ⟨first, hprefix, hchange⟩
      · exact hchosen (heq ▸ hall)
      · rw [hnone first hprefix hchange] at hchange
        exact not_coversWithChange_nil hamount hrate hchange

end Payment

/-! A coin that affords the payment alone, and small ones that cost more than they bring. -/

namespace Demo

def coin (vout value : Nat) : Utxo where
  txid := "0101010101010101010101010101010101010101010101010101010101010101".toList
  vout
  value

def recipient : Text := "tb1qmvlsp4pf7fc48q7vt9p93mq36m09ye5hpdz6rn".toList
def toScript : Bytes :=
  [0x00, 0x14, 0xdb, 0x3f, 0x00, 0xd4, 0x29, 0xf2, 0x71, 0x53, 0x83, 0xcc, 0x59, 0x42, 0x58, 0xec, 0x11,
    0xd6, 0xde, 0x52, 0x66, 0x97]

/-- Nothing is signed below. -/
def wallet : Wallet where
  outputScript address := if address = recipient then some toScript else none
  own :=
    [0x00, 0x14, 0xa3, 0xc6, 0xb1, 0xee, 0x4a, 0x49, 0xd9, 0xf2, 0xaf, 0x3b, 0x38, 0x02, 0x97, 0x47, 0x44,
      0xfb, 0xa9, 0x24, 0x16, 0x4a]
  sign _ _ _ _ := none

end Demo

/-- A coin that is worth the amount but not the fee: the payment is refused, and unaffordable. -/
theorem refuses_only_unaffordable_short :
    RefusesOnlyUnaffordable Demo.wallet [Demo.coin 0 1000] Demo.recipient Demo.toScript 1000 1 := by
  have hiff := @refuses_only_unaffordable_iff Demo.wallet [Demo.coin 0 1000] Demo.recipient Demo.toScript 1000 1
    rfl (by decide) (by decide) (by decide)
  refine hiff.mpr ?_
  rintro ⟨first, hfirst, hcovers⟩
  have hinits : ∀ first ∈ (largestFirst [Demo.coin 0 1000]).inits,
      ¬ CoversNoChange Demo.toScript 1000 1 first := by decide +kernel
  exact absurd hcovers (hinits first ((List.mem_inits _ _).mpr hfirst))

/-- 1110 sats pay 1000 and the fee of 110 without change, but not the 141 with change: the loop goes on to
three coins of 1 sat, and refuses. -/
theorem affordable_payment_refused :
    ¬ RefusesOnlyUnaffordable Demo.wallet
        [Demo.coin 0 1110, Demo.coin 1 1, Demo.coin 2 1, Demo.coin 3 1] Demo.recipient Demo.toScript 1000 1 := by
  intro h
  have hbuild : buildPayment Demo.wallet [Demo.coin 0 1110, Demo.coin 1 1, Demo.coin 2 1, Demo.coin 3 1]
      Demo.recipient 1000 1 = .error (.notEnoughBitcoin 1113 1314) := by decide +kernel
  have hcovers : CoversNoChange Demo.toScript 1000 1 [Demo.coin 0 1110] := by decide +kernel
  exact h.refused 1113 1314 hbuild [Demo.coin 0 1110] (List.prefix_append _ _).sublist.subperm hcovers

end Writz.Frontend.EmbeddedKey
