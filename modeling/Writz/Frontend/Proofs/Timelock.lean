import Writz.BitcoinScript.Proofs.Script
import Writz.Frontend.Timelock
import Writz.SpvTypes.Proofs.BtcParser

/-!
# Proofs: the timelock of a deposit

The search goes down the heights that were offered since the deposit was planned, and the first of them
that an output pays is the one it was planned with.
-/

namespace Writz.Frontend

open Node Bitcoin

/-! ## The heights -/

theorem chooseDepositTimelock_bounds (tipHeight : Nat) :
    tipHeight + 52560 ≤ chooseDepositTimelock tipHeight ∧
      chooseDepositTimelock tipHeight ≤ tipHeight + 53559 := by
  unfold chooseDepositTimelock TIMELOCK_TARGET_MARGIN TIMELOCK_STEP
  omega

theorem chooseDepositTimelock_mono {t t' : Nat} (h : t ≤ t') :
    chooseDepositTimelock t ≤ chooseDepositTimelock t' :=
  Nat.mul_le_mul_right _ (Nat.div_le_div_right (by omega))

theorem step_dvd (tipHeight : Nat) : TIMELOCK_STEP ∣ chooseDepositTimelock tipHeight :=
  Dvd.intro_left _ rfl

/-- The steps are tried from the top. -/
theorem stepsDown_pairwise (newest oldest : Nat) : (stepsDown newest oldest).Pairwise (· > ·) := by
  unfold stepsDown TIMELOCK_STEP
  split_ifs with h
  · exact .nil
  · refine List.pairwise_map.mpr (List.pairwise_lt_range.imp_of_mem fun {i j} _ hj hlt => ?_)
    rw [List.mem_range] at hj
    omega

theorem mem_stepsDown {newest oldest h : Nat} (hnewest : TIMELOCK_STEP ∣ newest) (hdvd : TIMELOCK_STEP ∣ h)
    (hlow : oldest ≤ h) (hhigh : h ≤ newest) : h ∈ stepsDown newest oldest := by
  unfold stepsDown TIMELOCK_STEP at *
  rw [if_neg (by omega)]
  refine List.mem_map.mpr ⟨(newest - h) / 1000, ?_, by omega⟩
  rw [List.mem_range]
  omega

/-- The height of a deposit that was planned in time is tried. -/
theorem mem_steps {t₀ t : Nat} (hle : t₀ ≤ t) (hrecent : t ≤ t₀ + 105000) :
    chooseDepositTimelock t₀ ∈ stepsDown (chooseDepositTimelock t)
      (chooseDepositTimelock (t - MAX_TIMELOCK_MARGIN)) := by
  refine mem_stepsDown (step_dvd t) (step_dvd t₀) ?_ (chooseDepositTimelock_mono hle)
  exact chooseDepositTimelock_mono (by unfold MAX_TIMELOCK_MARGIN; omega)

/-! ## The search -/

section

variable {B : BitcoinJs} {network : Network} {pHex uHex : Text} {script : Nat → Bytes}
  {outs : List TransactionOutput} {target : Nat}

/-- What the app derives for a height. -/
def Derives (B : BitcoinJs) (network : Network) (pHex uHex : Text) (height : Nat) (script : Bytes) : Prop :=
  ∃ p2wsh, deriveP2WSH B network pHex uHex height = .ok p2wsh ∧ p2wsh.scriptPubKey = script

/-- A height that no output pays is passed over. -/
theorem findAmong_skip {height : Nat} {candidates : List Nat} {spk : Bytes}
    (hderives : Derives B network pHex uHex height spk) (hunpaid : ∀ o ∈ outs, o.script ≠ spk) :
    findAmong B network pHex uHex outs (height :: candidates)
      = findAmong B network pHex uHex outs candidates := by
  obtain ⟨p2wsh, hok, rfl⟩ := hderives
  have hnone : outs.findIdx? (fun o => o.script = p2wsh.scriptPubKey) = none :=
    List.findIdx?_eq_none_iff.mpr fun o ho => decide_eq_false (hunpaid o ho)
  rw [findAmong, hok]
  simp only [bind, Except.bind]
  rw [hnone]

/-- A height that an output pays is returned, with the first output that pays it. -/
theorem findAmong_found {before after : List TransactionOutput} {o : TransactionOutput}
    {candidates : List Nat} (houts : outs = before ++ o :: after)
    (hderives : Derives B network pHex uHex target o.script)
    (hbefore : ∀ x ∈ before, x.script ≠ o.script) :
    findAmong B network pHex uHex outs (target :: candidates)
      = .ok (some { timelockHeight := target, vout := before.length, valueSats := o.value }) := by
  obtain ⟨p2wsh, hok, hspk⟩ := hderives
  have hfind : outs.findIdx? (fun x => x.script = p2wsh.scriptPubKey) = some before.length := by
    have hnone : before.findIdx? (fun x => x.script = o.script) = none :=
      List.findIdx?_eq_none_iff.mpr fun x hx => decide_eq_false (hbefore x hx)
    rw [houts, hspk, List.findIdx?_append, hnone, List.findIdx?_cons, if_pos (decide_eq_true rfl),
      Option.none_or, Option.map_some, Nat.zero_add]
  have hget : outs[before.length]? = some o := by
    rw [houts, List.getElem?_append_right le_rfl, Nat.sub_self]
    rfl
  rw [findAmong, hok]
  simp only [bind, Except.bind]
  rw [hfind]
  dsimp only
  rw [hget]
  rfl

/-- Of heights that are tried from the top, the highest that an output pays is returned. -/
theorem findAmong_steps {before after : List TransactionOutput} {o : TransactionOutput}
    (houts : outs = before ++ o :: after) (ho : o.script = script target)
    (hbefore : ∀ x ∈ before, x.script ≠ script target) {candidates : List Nat}
    (hsorted : candidates.Pairwise (· > ·)) (hmem : target ∈ candidates)
    (hderives : ∀ h ∈ candidates, target ≤ h → Derives B network pHex uHex h (script h))
    (hunpaid : ∀ h ∈ candidates, target < h → ∀ x ∈ outs, x.script ≠ script h) :
    findAmong B network pHex uHex outs candidates
      = .ok (some { timelockHeight := target, vout := before.length, valueSats := o.value }) := by
  induction candidates with
  | nil => cases hmem
  | cons h candidates ih =>
    obtain ⟨hhead, htail⟩ := List.pairwise_cons.mp hsorted
    by_cases htarget : h = target
    · subst htarget
      have hself := hderives h List.mem_cons_self le_rfl
      rw [← ho] at hself hbefore
      exact findAmong_found houts hself hbefore
    · have hlater : target ∈ candidates := (List.mem_cons.mp hmem).resolve_left (Ne.symm htarget)
      have hgt : target < h := hhead target hlater
      rw [findAmong_skip (hderives h List.mem_cons_self hgt.le) (hunpaid h List.mem_cons_self hgt)]
      exact ih htail hlater (fun x hx => hderives x (List.mem_cons_of_mem _ hx))
        fun x hx => hunpaid x (List.mem_cons_of_mem _ hx)

end

/-- What `bitcoin.Transaction.fromHex` reads of an output. -/
def readOutput (o : TxOut) : TransactionOutput where
  script := o.scriptPubkey
  value := o.value.toNat

/-- The assumptions on a deposit that was planned at `t₀` and is looked for at `t`. -/
structure Planned (B : BitcoinJs) (network : Network) (pHex uHex : Text) (script : Nat → Bytes)
    (outputs : List TxOut) (t₀ t : Nat) (hint : Option Nat) : Prop where
  later : t₀ ≤ t
  recent : t ≤ t₀ + 105000
  tall : 100000 ≤ chooseDepositTimelock t₀
  /-- Each height has a scriptPubKey of its own. -/
  derives : ∀ h ∈ depositCandidates t hint, 100000 ≤ h → Derives B network pHex uHex h (script h)
  distinct : ∀ h ∈ depositCandidates t hint, ∀ h' ∈ depositCandidates t hint, 100000 ≤ h →
    100000 ≤ h' → script h = script h' → h = h'
  paid : ∃ o ∈ outputs, o.scriptPubkey = script (chooseDepositTimelock t₀)
  /-- The outputs have no other candidate script. -/
  only : ∀ h ∈ depositCandidates t hint, 100000 ≤ h → ∀ o ∈ outputs, o.scriptPubkey = script h →
    script h = script (chooseDepositTimelock t₀)
  /-- A hint is wrong. -/
  wrong : ∀ h ∈ hint, 100000 ≤ h ∧ ∀ o ∈ outputs, o.scriptPubkey ≠ script h

section

variable {B : BitcoinJs} {network : Network} {pHex uHex rawTxHex : Text} {script : Nat → Bytes}
  {outputs : List TxOut} {t₀ t : Nat} {hint : Option Nat}
  {transactionFromHex : Text → Node.Result (List TransactionOutput)}

/-- The height of the deposit is a candidate, behind a hint. -/
theorem Planned.mem (h : Planned B network pHex uHex script outputs t₀ t hint) :
    chooseDepositTimelock t₀ ∈ (stepsDown (chooseDepositTimelock t)
      (chooseDepositTimelock (t - MAX_TIMELOCK_MARGIN))).filter fun x => decide (some x ≠ hint) := by
  refine List.mem_filter.mpr ⟨mem_steps h.later h.recent, decide_eq_true fun hhint => ?_⟩
  obtain ⟨o, ho, hpaid⟩ := h.paid
  exact (h.wrong _ hhint.symm).2 o ho hpaid

theorem Planned.unpaid (h : Planned B network pHex uHex script outputs t₀ t hint) {x : Nat}
    (hx : x ∈ depositCandidates t hint) (htarget : chooseDepositTimelock t₀ ∈ depositCandidates t hint)
    (hgt : chooseDepositTimelock t₀ < x) : ∀ o ∈ outputs, o.scriptPubkey ≠ script x := by
  intro o ho hpaid
  have htall : 100000 ≤ x := h.tall.trans hgt.le
  have hsame : x = chooseDepositTimelock t₀ :=
    h.distinct x hx _ htarget htall h.tall (h.only x hx htall o ho hpaid)
  exact hgt.ne hsame.symm

theorem depositCandidates_eq (t : Nat) (hint : Option Nat) :
    depositCandidates t hint = (hint.filter fun h => decide (h ≠ 0)).toList ++
      (stepsDown (chooseDepositTimelock t) (chooseDepositTimelock (t - MAX_TIMELOCK_MARGIN))).filter
        fun h => decide (some h ≠ hint) := rfl

theorem findDepositOutput_eq (h : Planned B network pHex uHex script outputs t₀ t hint)
    (hparse : transactionFromHex rawTxHex = .ok (outputs.map readOutput)) {before after : List TxOut}
    {o : TxOut} (houts : outputs = before ++ o :: after)
    (ho : o.scriptPubkey = script (chooseDepositTimelock t₀))
    (hbefore : ∀ x ∈ before, x.scriptPubkey ≠ script (chooseDepositTimelock t₀)) :
    findDepositOutput B transactionFromHex network rawTxHex pHex uHex t hint
      = .ok (some { timelockHeight := chooseDepositTimelock t₀, vout := before.length
                    valueSats := o.value.toNat }) := by
  have hread : outputs.map readOutput
      = before.map readOutput ++ readOutput o :: after.map readOutput := by
    rw [houts, List.map_append, List.map_cons]
  have hderives := h.derives
  have hmem := h.mem
  have hunpaid := fun x hx htarget => h.unpaid (x := x) hx htarget
  have hsorted := (stepsDown_pairwise (chooseDepositTimelock t)
    (chooseDepositTimelock (t - MAX_TIMELOCK_MARGIN))).filter fun x => decide (some x ≠ hint)
  rw [findDepositOutput, hparse]
  change findAmong _ _ _ _ _ (depositCandidates t hint) = _
  rw [depositCandidates_eq] at hderives hunpaid ⊢
  generalize List.filter _ (stepsDown _ _) = steps at *
  have hsteps := @findAmong_steps B network pHex uHex script _ _ _ _ _ hread ho
    (fun x hx => by
      obtain ⟨y, hy, rfl⟩ := List.mem_map.mp hx
      exact hbefore y hy)
    _ hsorted hmem
    (fun x hx hle => hderives x (List.mem_append_right _ hx) (h.tall.trans hle))
    fun x hx hgt y hy => by
      obtain ⟨z, hz, rfl⟩ := List.mem_map.mp hy
      exact hunpaid x (List.mem_append_right _ hx) (List.mem_append_right _ hmem) hgt z hz
  rw [List.length_map] at hsteps
  cases hint with
  | none =>
    rw [Option.filter_none, Option.toList_none, List.nil_append]
    exact hsteps
  | some height =>
    obtain ⟨htall, hunpaid⟩ := h.wrong height rfl
    have hkept : (some height).filter (fun x => decide (x ≠ 0)) = some height :=
      Option.filter_eq_some_iff.mpr ⟨rfl, decide_eq_true (by omega)⟩
    rw [hkept, Option.toList_some, List.singleton_append] at hderives ⊢
    rw [findAmong_skip (hderives height List.mem_cons_self htall) fun x hx => ?_]
    · exact hsteps
    · obtain ⟨y, hy, rfl⟩ := List.mem_map.mp hx
      exact hunpaid y hy

/-- The first output that pays a script. -/
theorem firstPaying {spk : Bytes} {outputs : List TxOut} (h : ∃ o ∈ outputs, o.scriptPubkey = spk) :
    ∃ o before after, outputs = before ++ o :: after ∧ o.scriptPubkey = spk ∧
      ∀ x ∈ before, x.scriptPubkey ≠ spk := by
  have hsome : (outputs.find? fun o => o.scriptPubkey = spk).isSome := by
    rw [List.find?_isSome]
    simpa using h
  obtain ⟨o, ho⟩ := Option.isSome_iff_exists.mp hsome
  obtain ⟨hspk, before, after, houts, hbefore⟩ := List.find?_eq_some_iff_append.mp ho
  exact ⟨o, before, after, houts, by simpa using hspk, by simpa using hbefore⟩

/-- What the contract credits for the output is its value. -/
theorem findP2wshOutput_paid {tx : Tx} {raw spk : Bytes} {before after : List TxOut} {o : TxOut}
    (hin : tx.inputs ≠ []) (hraw : raw = tx.serialize ∨ ∃ witnesses, raw = tx.serializeSegwit witnesses)
    (hlen : raw.length ≤ U32_MAX) (houts : tx.outputs = before ++ o :: after) (ho : o.scriptPubkey = spk)
    (hbefore : ∀ x ∈ before, x.scriptPubkey ≠ spk) :
    (∀ v, BtcParser.findP2wshOutput raw spk = .ok v → v = o.value.toNat) ∧
      (BtcParser.Sized tx → BtcParser.findP2wshOutput raw spk = .ok o.value.toNat) := by
  rw [BtcParser.findP2wshOutput_serialized hin hraw hlen, BtcParser.found, houts,
    BtcParser.paidTo_append ho hbefore]
  constructor
  · intro v hv
    rw [okOr_eq_ok] at hv
    split_ifs at hv
    exact (Option.some.inj hv).symm
  · intro hsized
    have hscripts : ∀ x ∈ before ++ [o], x.scriptPubkey.length ≤ 0xffff := fun x hx => by
      refine hsized.spks x ?_
      rw [houts, ← List.singleton_append, ← List.append_assoc]
      exact List.mem_append_left _ hx
    rw [if_pos ⟨hsized.inputs, hsized.scripts, houts ▸ hsized.outputs⟩, if_pos hscripts]
    rfl

end

/-- The contract accepts the height for as long as the deposit is confirmed within the margin. -/
theorem timelockInBounds_choose {t₀ c : Nat} (hmax : chooseDepositTimelock t₀ ≤ U32_MAX) (hle : t₀ ≤ c)
    (hsoon : c ≤ t₀ + 51552) : timelockInBounds (chooseDepositTimelock t₀) c = true := by
  obtain ⟨hlow, hhigh⟩ := chooseDepositTimelock_bounds t₀
  generalize chooseDepositTimelock t₀ = height at *
  unfold timelockInBounds saturatingAddU32 MIN_TIMELOCK_MARGIN_BLOCKS MAX_TIMELOCK_MARGIN_BLOCKS
  rw [Bool.and_eq_true, decide_eq_true_iff, decide_eq_true_iff]
  omega

/-- The search recovers the height that the deposit was planned with, the first output that pays it, and
the value that the contract credits; and the contract accepts the height. -/
theorem deposit_recovery {B : BitcoinJs} {network : Network} {pHex uHex rawTxHex : Text}
    {script : Nat → Bytes} {tx : Tx} {t₀ t : Nat} {hint : Option Nat}
    {transactionFromHex : Text → Node.Result (List TransactionOutput)}
    (h : Planned B network pHex uHex script tx.outputs t₀ t hint)
    (hparse : transactionFromHex rawTxHex = .ok (tx.outputs.map readOutput)) (hin : tx.inputs ≠ [])
    (hraw : fromHex rawTxHex = tx.serialize ∨ ∃ witnesses, fromHex rawTxHex = tx.serializeSegwit witnesses)
    (hlen : (fromHex rawTxHex).length ≤ U32_MAX) :
    ∃ before o after, tx.outputs = before ++ o :: after ∧
      o.scriptPubkey = script (chooseDepositTimelock t₀) ∧
      (∀ x ∈ before, x.scriptPubkey ≠ script (chooseDepositTimelock t₀)) ∧
      findDepositOutput B transactionFromHex network rawTxHex pHex uHex t hint
        = .ok (some { timelockHeight := chooseDepositTimelock t₀, vout := before.length
                      valueSats := o.value.toNat }) ∧
      (∀ v, BtcParser.findP2wshOutput (fromHex rawTxHex) (script (chooseDepositTimelock t₀)) = .ok v →
        v = o.value.toNat) ∧
      (BtcParser.Sized tx →
        BtcParser.findP2wshOutput (fromHex rawTxHex) (script (chooseDepositTimelock t₀))
          = .ok o.value.toNat) ∧
      (chooseDepositTimelock t₀ ≤ U32_MAX → ∀ c, t₀ ≤ c → c ≤ t₀ + 51552 →
        timelockInBounds (chooseDepositTimelock t₀) c = true) := by
  obtain ⟨o, before, after, houts, ho, hbefore⟩ := firstPaying h.paid
  obtain ⟨hvalue, hsized⟩ := findP2wshOutput_paid hin hraw hlen houts ho hbefore
  exact ⟨before, o, after, houts, ho, hbefore, findDepositOutput_eq h hparse houts ho hbefore, hvalue,
    hsized, fun hmax c hle hsoon => timelockInBounds_choose hmax hle hsoon⟩

namespace Demo

open ScriptVector (protocol user crypto)

def spk : Bytes := p2wshScriptPubkey crypto protocol user 100000

theorem length_spk : spk.length = 34 := by
  rw [spk, p2wshScriptPubkey, List.length_append, (crypto.sha256 _).2]
  rfl

/-- Another output, and the one of the deposit. -/
def tx (other : Bytes) : Tx :=
  { BtcParser.Demo.tx with outputs := [⟨1, other⟩, ⟨77777, spk⟩] }

/-- Planned and looked for when 100000 is the newest height. -/
theorem planned (other : Bytes) :
    Planned ScriptVector.lib .testnet (Hex.encode protocol.1) (Hex.encode user.1)
      (p2wshScriptPubkey crypto protocol user) (tx other).outputs 46441 46441 none := by
  have hnewest : chooseDepositTimelock 46441 = 100000 := by decide
  have hcandidates : ∀ h ∈ depositCandidates 46441 none, 100000 ≤ h → h = 100000 := by
    rw [depositCandidates_eq, hnewest]
    decide
  refine ⟨le_rfl, by omega, by omega, fun h hh hle => ?_, fun h hh h' hh' hle hle' _ => ?_, ?_,
    fun h hh hle _ _ _ => ?_, fun h hh => (by cases hh)⟩
  · have hmax : h ≤ U32_MAX := by
      rw [hcandidates h hh hle]
      decide
    obtain ⟨address, hok⟩ := deriveP2WSH_eq ScriptVector.lib_followsRules protocol user hle hmax .testnet
      (Hex.decode_encode _) (Hex.decode_encode _)
    exact ⟨_, hok, rfl⟩
  · rw [hcandidates h hh hle, hcandidates h' hh' hle']
  · rw [hnewest]
    exact ⟨⟨77777, spk⟩, by simp [tx], rfl⟩
  · rw [hcandidates h hh hle, hnewest]

end Demo

/-- A deposit that is looked for at the height it was planned at. -/
theorem deposit_recovery_height :
    ∃ out, findDepositOutput ScriptVector.lib
        (fun _ => .ok ((Demo.tx [0x6a]).outputs.map readOutput)) .testnet
        (Hex.encode (Demo.tx [0x6a]).serialize) (Hex.encode ScriptVector.protocol.1)
        (Hex.encode ScriptVector.user.1) 46441 none = .ok (some out) ∧
      out.timelockHeight = 100000 ∧ timelockInBounds out.timelockHeight 46450 = true := by
  have hraw : fromHex (Hex.encode (Demo.tx [0x6a]).serialize) = (Demo.tx [0x6a]).serialize :=
    fromHex_of_decode (Hex.decode_encode _)
  have hsize : (Demo.tx [0x6a]).serialize.length ≤ U32_MAX := by
    simp [Tx.serialize, TxOut.serialize, TxIn.serialize, Demo.tx, BtcParser.Demo.tx, Demo.length_spk,
      compactSize, U32_MAX]
  obtain ⟨before, o, after, -, -, -, hfind, -, -, hbounds⟩ := @deposit_recovery
    ScriptVector.lib .testnet _ _ (Hex.encode (Demo.tx [0x6a]).serialize) _ (Demo.tx [0x6a]) 46441 46441 none
    (fun _ => .ok ((Demo.tx [0x6a]).outputs.map readOutput)) (Demo.planned [0x6a]) rfl
    (by simp [Demo.tx, BtcParser.Demo.tx]) (.inl hraw) (by rw [hraw]; exact hsize)
  exact ⟨_, hfind, rfl, hbounds (by decide) 46450 (by omega) (by omega)⟩

theorem deposit_found {other : Bytes} (hlen : other.length ≠ 34) :
    findDepositOutput ScriptVector.lib (fun _ => .ok ((Demo.tx other).outputs.map readOutput)) .testnet
        (Hex.encode (Demo.tx other).serialize) (Hex.encode ScriptVector.protocol.1)
        (Hex.encode ScriptVector.user.1) 46441 none
      = .ok (some { timelockHeight := 100000, vout := 1, valueSats := 77777 }) := by
  have hne : ∀ x ∈ [(⟨1, other⟩ : TxOut)], x.scriptPubkey ≠ Demo.spk := by
    intro x hx hspk
    rw [List.mem_singleton.mp hx] at hspk
    exact hlen ((congrArg List.length hspk).trans Demo.length_spk)
  exact @findDepositOutput_eq ScriptVector.lib .testnet _ _ (Hex.encode (Demo.tx other).serialize) _ _
    46441 46441 none (fun _ => .ok ((Demo.tx other).outputs.map readOutput)) (Demo.planned other) rfl
    _ _ _ rfl rfl hne

theorem deposit_unread {other : Bytes} (hlen : other.length = 65536) :
    BtcParser.findP2wshOutput (Demo.tx other).serialize Demo.spk = .error .none := by
  have hsize : (Demo.tx other).serialize.length ≤ U32_MAX := by
    simp [Tx.serialize, TxOut.serialize, TxIn.serialize, Demo.tx, BtcParser.Demo.tx, Demo.length_spk,
      hlen, compactSize, U32_MAX]
  rw [BtcParser.findP2wshOutput_serialized (by simp [Demo.tx, BtcParser.Demo.tx]) (.inl rfl) hsize]
  simp [BtcParser.found, BtcParser.paidTo, Demo.tx, hlen, okOr]

/-- The contract credits nothing if a script before the output is too long for its scanner. -/
theorem deposit_not_credited :
    findDepositOutput ScriptVector.lib
        (fun _ => .ok ((Demo.tx (List.replicate 65536 0x6a)).outputs.map readOutput)) .testnet
        (Hex.encode (Demo.tx (List.replicate 65536 0x6a)).serialize)
        (Hex.encode ScriptVector.protocol.1) (Hex.encode ScriptVector.user.1) 46441 none
      = .ok (some { timelockHeight := 100000, vout := 1, valueSats := 77777 }) ∧
    BtcParser.findP2wshOutput (Demo.tx (List.replicate 65536 0x6a)).serialize Demo.spk
      = .error .none := by
  have hlen : (List.replicate 65536 (0x6a : UInt8)).length = 65536 := List.length_replicate
  exact ⟨deposit_found (by rw [hlen]; omega), deposit_unread hlen⟩

end Writz.Frontend
