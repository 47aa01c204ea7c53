import Writz.Lend.Rates
import Writz.Lend.Oracle
import Writz.SpvTypes.Script
import Writz.SpvTypes.KeyProof
import Writz.SpvTypes.BtcParser

/-!
# The lending contract

The entry points of `writz-lend`. Each takes the state before the call and returns the state after
it; an abort returns no state, and `invoke` then keeps the state before, as the host does.
-/

namespace Writz.Lend

def MAX_MIN_CONFIRMATIONS : Nat := 20
def MIN_DEPOSIT_FLOOR_SATS : Nat := 1000
def LEDGERS_PER_DAY : Nat := 17280
def MAX_ENTRY_TTL_LEDGERS : Nat := 180 * LEDGERS_PER_DAY
def MIN_ENTRY_TTL_LEDGERS : Nat := LEDGERS_PER_DAY
/-- Blocks a borrow must leave between the tip and the position's timelock height. -/
def DEFAULT_BORROW_TIMELOCK_MARGIN_BLOCKS : Nat := 4320
/-- Blocks before the timelock height after which no liquidation is accepted. -/
def LIQUIDATION_CUTOFF_BLOCKS : Nat := 288
def DEFAULT_MAX_TIP_AGE_SECS : Nat := 6 * 60 * 60
def MIN_MAX_TIP_AGE_SECS : Nat := 60 * 60
def MAX_MAX_TIP_AGE_SECS : Nat := 48 * 60 * 60

/-- `__constructor`. -/
def construct (admin spvContract usdcToken oracle keeper relayer : Address)
    (protocolPubkey : BytesN 33) (minConfirmations minDepositSatoshis entryTtlLedgers : Nat) :
    Result Storage := do
  failIf (isCompressedPubkey protocolPubkey = false) (.err .InvalidProtocolPubkey)
  failIf (minConfirmations = 0 ∨ minConfirmations > MAX_MIN_CONFIRMATIONS
    ∨ minDepositSatoshis < MIN_DEPOSIT_FLOOR_SATS) (.err .InvalidDepositParams)
  failIf (¬ (MIN_ENTRY_TTL_LEDGERS ≤ entryTtlLedgers ∧ entryTtlLedgers ≤ MAX_ENTRY_TTL_LEDGERS))
    (.err .InvalidEntryTtl)
  .ok
    { config := some
        { admin, spvContract, usdcToken, oracle, keeper, relayer, protocolPubkey,
          minDepositSatoshis
          minCollateralRatioBp := 15000
          liquidationThresholdBp := 12000
          liquidationBonusBp := 1000
          minConfirmations
          keeperStaleAfterSecs := 86400
          paused := false
          maxTotalBorrowed := 500000000000
          entryTtlLedgers
          borrowTimelockMarginBlocks := DEFAULT_BORROW_TIMELOCK_MARGIN_BLOCKS
          maxTipAgeSecs := DEFAULT_MAX_TIP_AGE_SECS }
      protocol := none
      positions := ∅
      supplyBalances := ∅
      releasePsbts := ∅
      events := [] }

section

variable {τ ρ : Type}

/-! ## Internal helpers -/

/-- `a.require_auth()`. A contract address authorizes only what that contract itself calls, and the
host lets no contract call back into itself, so the contract's own address never authorizes. -/
def requireAuth (H : Host τ ρ) (env : Env) (a : Address) : Result Unit :=
  failIf (a = H.self ∨ env.auth a = false) (.auth a)

/-- `token.transfer(src, dst, amount)`. -/
def transfer (H : Host τ ρ) (w : World τ ρ) (src dst : Address) (amount : Int) :
    Result (World τ ρ) :=
  match H.token.transfer w.token src dst amount with
  | some t => .ok { w with token := t }
  | none => .error (.transfer src amount (H.token.balance w.token src))

/-- The stored protocol state, or the initial one before anything has been written. -/
def getProtocol (w : World τ ρ) : ProtocolState :=
  w.protocol.getD
    { reserveUsdc := 0
      totalScaledSupply := 0
      supplyIndex := INDEX_ONE
      totalBorrowed := 0
      lastKeeperHeartbeat := w.ledger.timestamp
      borrowIndex := INDEX_ONE
      indexLedger := w.ledger.sequence }

/-- A lender's scaled balance, 0 when none is stored. -/
def supplyBalanceOf (w : World τ ρ) (lender : Address) : Int := (w.supplyBalances.lookup lender).getD 0

/-- Height of the `bitcoin-spv` best tip, if its header is recent enough. -/
def freshTipHeight (H : Host τ ρ) (w : World τ ρ) (config : Config) : Result Nat := do
  let tip ← okOr (H.spv.getBestTip w.spv config.spvContract) .trap
  let tip ← okOr tip (.err .StaleBitcoinTip)
  let header ← okOr (H.spv.getHeader w.spv config.spvContract tip.hash) .trap
  let header ← okOr header (.err .StaleBitcoinTip)
  failIf (w.ledger.timestamp > saturatingAddU64 header.time config.maxTipAgeSecs)
    (.err .StaleBitcoinTip)
  .ok tip.height

/-- True when the timelock height lies at least `blocks` above the tip. -/
def timelockClears (timelockHeight tipHeight blocks : Nat) : Bool :=
  decide (timelockHeight ≥ tipHeight + blocks)

/-- Brings the indexes and totals up to date with the ledger. -/
def accrueGlobal (A : Arith) (current : Nat) (proto : ProtocolState) : ProtocolState :=
  let r := project A proto current
  { proto with
    borrowIndex := r.borrowIndex
    supplyIndex := r.supplyIndex
    totalBorrowed := r.totalBorrowed
    reserveUsdc := r.reserveUsdc
    indexLedger := current }

/-- The debt of a position at the borrow index `borrowIndex`. -/
def accruedDebt (A : Arith) (pos : Position) (borrowIndex : Int) : Int :=
  if pos.usdcDebt > 0 ∧ pos.debtIndex > 0 then
    (A.mul pos.usdcDebt borrowIndex).tdiv pos.debtIndex
  else
    pos.usdcDebt

/-- Brings a position up to date with the (already accrued) borrow index. -/
def accruePositionInterest (A : Arith) (current : Nat) (pos : Position) (proto : ProtocolState) :
    Position :=
  { pos with
    usdcDebt := accruedDebt A pos proto.borrowIndex
    debtIndex := proto.borrowIndex
    lastUpdateLedger := current }

/-- The stored protocol state with interest accrued to the current ledger. -/
def projected (A : Arith) (w : World τ ρ) : ProtocolState :=
  accrueGlobal A w.ledger.sequence (getProtocol w)

/-- Publishes an event. -/
def publish (w : World τ ρ) (e : Event) : World τ ρ := { w with events := w.events ++ [e] }

/-! ## Deposit -/

/-- The deposited amount the raw transaction holds. -/
def depositedSatoshis (rawTx p2wshSpk : Bytes) : Result Nat :=
  match BtcParser.findP2wshOutput rawTx p2wshSpk with
  | .ok v => .ok v
  | .error .none => .error (.err .OutputNotFound)
  | .error .trap => .error .trap

def deposit (H : Host τ ρ) (env : Env) (w : World τ ρ) (depositor : Address)
    (blockHash : BytesN 32) (merkleProof : List (BytesN 32)) (txIndex : Nat) (rawTx : Bytes)
    (p2wshSpk : Bytes) (timelockHeight : Nat) (userPubkey : BytesN 33) (keySig : BytesN 65) :
    Result (BytesN 32 × World τ ρ) := do
  requireAuth H env depositor
  let config ← okOr w.config (.err .NotInitialized)
  failIf (config.paused = true) (.err .Paused)
  failIf (p2wshSpk.length ≠ 34 ∨ p2wshSpk[0]? ≠ some 0x00 ∨ p2wshSpk[1]? ≠ some 0x20)
    (.err .InvalidScriptPubKey)
  failIf (isCompressedPubkey userPubkey = false) (.err .InvalidUserPubkey)
  failIf (userPubkey = config.protocolPubkey) (.err .UserKeyIsProtocolKey)
  let expectedSpk := p2wshScriptPubkey H.crypto config.protocolPubkey userPubkey timelockHeight
  failIf (p2wshSpk ≠ expectedSpk) (.err .ScriptPubKeyMismatch)
  let spvResult ← okOr
    (H.spv.verifyTransaction w.spv config.spvContract blockHash merkleProof txIndex rawTx
      config.minConfirmations) .trap
  let txid := spvResult.txid
  failIf (timelockInBounds timelockHeight spvResult.blockHeight = false) (.err .InvalidTimelock)
  let keyMsg := depositMessage H.self depositor txid
  let signed ← okOr (signedBy H.crypto keyMsg keySig userPubkey) .trap
  failIf (signed = false) (.err .InvalidKeyProof)
  failIf ((w.positions.lookup txid).isSome = true) (.err .PositionAlreadyExists)
  let spv ← okOr (H.spv.consumeDeposit w.spv config.spvContract H.self txid) .trap
  let w := { w with spv := spv }
  let btcSatoshis ← depositedSatoshis rawTx p2wshSpk
  failIf (btcSatoshis < config.minDepositSatoshis) (.err .DepositTooSmall)
  let pos : Position :=
    { btcTxid := txid
      btcSatoshis
      usdcDebt := 0
      p2wshScriptPubkey := p2wshSpk
      timelockHeight
      lastUpdateLedger := w.ledger.sequence
      debtIndex := INDEX_ONE
      depositor
      status := .Active
      userPubkey }
  let w := { w with positions := w.positions.insert txid pos }
  .ok (txid, publish w (.deposit txid pos.btcSatoshis pos.timelockHeight))

/-! ## USDC supply -/

/-- The scaled units a supply of `amount` mints. -/
def mintFor (A : Arith) (proto : ProtocolState) (amount : Int) : Int :=
  (A.mul amount INDEX_ONE).tdiv proto.supplyIndex

def supplyUsdc (A : Arith) (H : Host τ ρ) (env : Env) (w : World τ ρ) (supplier : Address)
    (amount : Int) : Result (World τ ρ) := do
  requireAuth H env supplier
  let config ← okOr w.config (.err .NotInitialized)
  failIf (config.paused = true) (.err .Paused)
  let proto := accrueGlobal A w.ledger.sequence (getProtocol w)
  let scaled := mintFor A proto amount
  failIf (scaled ≤ 0) (.err .ZeroShareAmount)
  let w ← transfer H w supplier H.self amount
  let proto := { proto with totalScaledSupply := A.add proto.totalScaledSupply scaled }
  let bal := supplyBalanceOf w supplier
  let w :=
    { w with
      protocol := some proto
      supplyBalances := w.supplyBalances.insert supplier (A.add bal scaled) }
  .ok (publish w (.supply supplier amount scaled proto.supplyIndex
    (totalSupplyAssets A proto proto.supplyIndex)))

/-- The scaled units a withdrawal of `amount` burns from a balance of `scaledBal` units worth
`value`. -/
def burnFor (A : Arith) (proto : ProtocolState) (scaledBal value amount : Int) : Int :=
  if amount = value then
    scaledBal
  else
    let up := (A.add (A.mul amount INDEX_ONE) (proto.supplyIndex - 1)).tdiv proto.supplyIndex
    min up scaledBal

def withdrawSupply (A : Arith) (H : Host τ ρ) (env : Env) (w : World τ ρ) (supplier : Address)
    (amount : Int) : Result (World τ ρ) := do
  requireAuth H env supplier
  let _config ← okOr w.config (.err .NotInitialized)
  failIf (amount ≤ 0) (.err .ZeroShareAmount)
  let proto := accrueGlobal A w.ledger.sequence (getProtocol w)
  let scaledBal := supplyBalanceOf w supplier
  let value := (A.mul scaledBal proto.supplyIndex).tdiv INDEX_ONE
  failIf (amount > value) (.err .InsufficientSupply)
  let assets := totalSupplyAssets A proto proto.supplyIndex
  let available := A.sub assets proto.totalBorrowed
  failIf (amount > available) (.err .InsufficientLiquidity)
  let burn := burnFor A proto scaledBal value amount
  let proto := { proto with totalScaledSupply := A.sub proto.totalScaledSupply burn }
  let w :=
    { w with
      supplyBalances := w.supplyBalances.insert supplier (scaledBal - burn)
      protocol := some proto }
  let w ← transfer H w H.self supplier amount
  .ok (publish w (.withdraw supplier amount burn proto.supplyIndex
    (totalSupplyAssets A proto proto.supplyIndex)))

/-! ## Borrow -/

def borrow (A : Arith) (H : Host τ ρ) (env : Env) (w : World τ ρ) (borrower : Address)
    (txid : BytesN 32) (usdcAmount : Int) : Result (World τ ρ) := do
  requireAuth H env borrower
  let config ← okOr w.config (.err .NotInitialized)
  failIf (config.paused = true) (.err .Paused)
  let pos ← okOr (w.positions.lookup txid) (.err .PositionNotFound)
  failIf (pos.status ≠ .Active) (.err .PositionNotActive)
  failIf (pos.depositor ≠ borrower) (.err .Unauthorized)
  let tipHeight ← freshTipHeight H w config
  failIf (timelockClears pos.timelockHeight tipHeight config.borrowTimelockMarginBlocks = false)
    (.err .TimelockTooSoon)
  let proto := accrueGlobal A w.ledger.sequence (getProtocol w)
  let pos := accruePositionInterest A w.ledger.sequence pos proto
  let available := A.sub (totalSupplyAssets A proto proto.supplyIndex) proto.totalBorrowed
  failIf (usdcAmount > available) (.err .InsufficientLiquidity)
  failIf (A.add proto.totalBorrowed usdcAmount > config.maxTotalBorrowed) (.err .ExposureCapExceeded)
  let newDebt := A.add pos.usdcDebt usdcAmount
  let price ← getBtcPriceStroops env w.ledger.timestamp config.oracle
  let collateral ← okOr (collateralValueStroops pos.btcSatoshis price) (.err .Overflow)
  let health := healthRatioBp A collateral newDebt
  failIf (health < config.minCollateralRatioBp) (.err .ExceedsCollateralRatio)
  let pos := { pos with usdcDebt := newDebt }
  let proto := { proto with totalBorrowed := A.add proto.totalBorrowed usdcAmount }
  let w := { w with positions := w.positions.insert txid pos, protocol := some proto }
  let w ← transfer H w H.self borrower usdcAmount
  .ok (publish w (.borrow txid borrower usdcAmount))

/-! ## Repay -/

def repay (A : Arith) (H : Host τ ρ) (env : Env) (w : World τ ρ) (repayer : Address)
    (txid : BytesN 32) (usdcAmount : Int) : Result (World τ ρ) := do
  requireAuth H env repayer
  let _config ← okOr w.config (.err .NotInitialized)
  let pos ← okOr (w.positions.lookup txid) (.err .PositionNotFound)
  failIf (pos.status ≠ .Active) (.err .PositionNotActive)
  let proto := accrueGlobal A w.ledger.sequence (getProtocol w)
  let pos := accruePositionInterest A w.ledger.sequence pos proto
  failIf (usdcAmount > pos.usdcDebt) (.err .RepayExceedsDebt)
  let w ← transfer H w repayer H.self usdcAmount
  let pos := { pos with usdcDebt := A.sub pos.usdcDebt usdcAmount }
  let proto := { proto with totalBorrowed := A.sub proto.totalBorrowed usdcAmount }
  let fullyRepaid := pos.usdcDebt = 0
  let pos := { pos with status := if fullyRepaid then .Closed else pos.status }
  let w := publish w
    (if fullyRepaid then .repayFull txid repayer pos.p2wshScriptPubkey else .repay txid usdcAmount)
  .ok { w with positions := w.positions.insert txid pos, protocol := some proto }

/-! ## Liquidation -/

/-- Pays the keeper a positive bonus. -/
def payBonus (H : Host τ ρ) (w : World τ ρ) (keeper : Address) (bonusPaid : Int) :
    Result (World τ ρ) :=
  if bonusPaid > 0 then transfer H w H.self keeper bonusPaid else .ok w

/-- The price-based part of `liquidate`: what the position owes by now, against its collateral. -/
def checkUndercollateralized (A : Arith) (env : Env) (w : World τ ρ) (config : Config) (pos : Position) :
    Result Unit := do
  let proto := accrueGlobal A w.ledger.sequence (getProtocol w)
  let pos := accruePositionInterest A w.ledger.sequence pos proto
  let price ← getBtcPriceStroops env w.ledger.timestamp config.oracle
  let collateral ← okOr (collateralValueStroops pos.btcSatoshis price) (.err .Overflow)
  let health := healthRatioBp A collateral pos.usdcDebt
  failIf (health ≥ config.liquidationThresholdBp) (.err .PositionHealthy)

def liquidate (A : Arith) (H : Host τ ρ) (env : Env) (w : World τ ρ) (keeper : Address)
    (txid : BytesN 32) : Result (World τ ρ) := do
  requireAuth H env keeper
  let config ← okOr w.config (.err .NotInitialized)
  let proto := getProtocol w
  let isDesignatedKeeper := keeper = config.keeper
  let keeperIsStale :=
    w.ledger.timestamp > saturatingAddU64 proto.lastKeeperHeartbeat config.keeperStaleAfterSecs
  failIf (¬ isDesignatedKeeper ∧ ¬ keeperIsStale) (.err .Unauthorized)
  let pos ← okOr (w.positions.lookup txid) (.err .PositionNotFound)
  failIf (pos.status ≠ .Active) (.err .PositionNotActive)
  let tipHeight ← freshTipHeight H w config
  failIf (timelockClears pos.timelockHeight tipHeight LIQUIDATION_CUTOFF_BLOCKS = false)
    (.err .LiquidationWindowClosed)
  let proto := accrueGlobal A w.ledger.sequence proto
  let pos := accruePositionInterest A w.ledger.sequence pos proto
  let price ← getBtcPriceStroops env w.ledger.timestamp config.oracle
  let collateral ← okOr (collateralValueStroops pos.btcSatoshis price) (.err .Overflow)
  let health := healthRatioBp A collateral pos.usdcDebt
  failIf (health ≥ config.liquidationThresholdBp) (.err .PositionHealthy)
  let debt := pos.usdcDebt
  let w ← transfer H w keeper H.self debt
  let proto := { proto with totalBorrowed := A.sub proto.totalBorrowed debt }
  let bonusDue := (A.mul debt config.liquidationBonusBp).tdiv BP_SCALE
  let bonusPaid := min bonusDue proto.reserveUsdc
  let proto :=
    { proto with
      reserveUsdc := if bonusPaid > 0 then proto.reserveUsdc - bonusPaid else proto.reserveUsdc }
  let w ← payBonus H w keeper bonusPaid
  let proto :=
    { proto with
      lastKeeperHeartbeat :=
        if isDesignatedKeeper then w.ledger.timestamp else proto.lastKeeperHeartbeat }
  let pos := { pos with usdcDebt := 0, status := .Liquidated }
  let w := { w with positions := w.positions.insert txid pos, protocol := some proto }
  .ok (publish w (.liquidate txid keeper bonusPaid))

/-! ## Admin -/

/-- The shape of every admin setter: the caller authorizes and is the admin, the new value passes
`check`, and the configuration is updated. -/
def adminUpdate (H : Host τ ρ) (env : Env) (w : World τ ρ) (caller : Address)
    (check : Result Unit) (update : Config → Config) (events : List Event) : Result (World τ ρ) := do
  requireAuth H env caller
  let config ← okOr w.config (.err .NotInitialized)
  failIf (caller ≠ config.admin) (.err .Unauthorized)
  check
  .ok { w with config := some (update config), events := w.events ++ events }

def setMaxTotalBorrowed (H : Host τ ρ) (env : Env) (w : World τ ρ) (caller : Address) (max : Int) :
    Result (World τ ρ) :=
  adminUpdate H env w caller (.ok ()) (fun c => { c with maxTotalBorrowed := max }) []

def setKeeper (H : Host τ ρ) (env : Env) (w : World τ ρ) (caller newKeeper : Address) :
    Result (World τ ρ) :=
  adminUpdate H env w caller (.ok ()) (fun c => { c with keeper := newKeeper }) []

/-- The designated keeper's liveness signal. -/
def keeperHeartbeat (H : Host τ ρ) (env : Env) (w : World τ ρ) (keeper : Address) :
    Result (World τ ρ) := do
  requireAuth H env keeper
  let config ← okOr w.config (.err .NotInitialized)
  failIf (keeper ≠ config.keeper) (.err .Unauthorized)
  let proto := { getProtocol w with lastKeeperHeartbeat := w.ledger.timestamp }
  .ok { w with protocol := some proto }

def setKeeperStaleWindow (H : Host τ ρ) (env : Env) (w : World τ ρ) (caller : Address)
    (secs : Nat) : Result (World τ ρ) :=
  adminUpdate H env w caller (.ok ()) (fun c => { c with keeperStaleAfterSecs := secs }) []

def setBorrowTimelockMargin (H : Host τ ρ) (env : Env) (w : World τ ρ) (caller : Address)
    (blocks : Nat) : Result (World τ ρ) :=
  adminUpdate H env w caller
    (failIf (¬ (DEFAULT_BORROW_TIMELOCK_MARGIN_BLOCKS ≤ blocks ∧ blocks ≤ MAX_TIMELOCK_MARGIN_BLOCKS))
      (.err .InvalidTimelockParams))
    (fun c => { c with borrowTimelockMarginBlocks := blocks }) []

def setMaxTipAge (H : Host τ ρ) (env : Env) (w : World τ ρ) (caller : Address) (secs : Nat) :
    Result (World τ ρ) :=
  adminUpdate H env w caller
    (failIf (¬ (MIN_MAX_TIP_AGE_SECS ≤ secs ∧ secs ≤ MAX_MAX_TIP_AGE_SECS))
      (.err .InvalidTimelockParams))
    (fun c => { c with maxTipAgeSecs := secs }) []

def setRelayer (H : Host τ ρ) (env : Env) (w : World τ ρ) (caller newRelayer : Address) :
    Result (World τ ρ) :=
  adminUpdate H env w caller (.ok ()) (fun c => { c with relayer := newRelayer }) []

def setOracle (H : Host τ ρ) (env : Env) (w : World τ ρ) (caller newOracle : Address) :
    Result (World τ ρ) :=
  adminUpdate H env w caller (.ok ()) (fun c => { c with oracle := newOracle })
    [.oracleSet caller newOracle]

def setEntryTtl (H : Host τ ρ) (env : Env) (w : World τ ρ) (caller : Address)
    (entryTtlLedgers : Nat) : Result (World τ ρ) :=
  adminUpdate H env w caller
    (failIf (¬ (MIN_ENTRY_TTL_LEDGERS ≤ entryTtlLedgers ∧ entryTtlLedgers ≤ MAX_ENTRY_TTL_LEDGERS))
      (.err .InvalidEntryTtl))
    (fun c => { c with entryTtlLedgers := entryTtlLedgers })
    [.entryTtlSet caller entryTtlLedgers]

def setSpvContract (H : Host τ ρ) (env : Env) (w : World τ ρ) (caller newSpvContract : Address) :
    Result (World τ ρ) :=
  adminUpdate H env w caller (.ok ()) (fun c => { c with spvContract := newSpvContract }) []

def setPaused (H : Host τ ρ) (env : Env) (w : World τ ρ) (caller : Address) (paused : Bool) :
    Result (World τ ρ) :=
  adminUpdate H env w caller (.ok ()) (fun c => { c with paused := paused })
    [.pausedSet caller paused]

/-! ## Auto-cosign relayer watcher -/

def publishReleasePsbt (H : Host τ ρ) (env : Env) (w : World τ ρ) (relayer : Address)
    (txid : BytesN 32) (psbt : Bytes) : Result (World τ ρ) := do
  requireAuth H env relayer
  let config ← okOr w.config (.err .NotInitialized)
  failIf (relayer ≠ config.relayer) (.err .Unauthorized)
  failIf ((w.positions.lookup txid).isNone = true) (.err .PositionNotFound)
  .ok { w with releasePsbts := w.releasePsbts.insert txid psbt }

/-! ## Views -/

/-- The health ratio of a position in basis points, of its debt as it is stored. -/
def getHealthRatioBp (A : Arith) (env : Env) (w : World τ ρ) (txid : BytesN 32) : Result Int := do
  let config ← okOr w.config (.err .NotInitialized)
  let pos ← okOr (w.positions.lookup txid) (.err .PositionNotFound)
  if pos.usdcDebt = 0 then
    .ok I128_MAX
  else
    let price ← getBtcPriceStroops env w.ledger.timestamp config.oracle
    let collateral ← okOr (collateralValueStroops pos.btcSatoshis price) (.err .Overflow)
    .ok (healthRatioBp A collateral pos.usdcDebt)

/-- Annual borrow rate in basis points, projected to the current ledger. -/
def getBorrowRateBp (A : Arith) (w : World τ ρ) : Int :=
  let proto := projected A w
  borrowRateBp A proto.totalBorrowed (totalSupplyAssets A proto proto.supplyIndex)

/-- Annual supply rate in basis points, projected to the current ledger. -/
def getSupplyRateBp (A : Arith) (w : World τ ρ) : Int :=
  let proto := projected A w
  let assets := totalSupplyAssets A proto proto.supplyIndex
  supplyRateBp A (borrowRateBp A proto.totalBorrowed assets) proto.totalBorrowed assets

/-- A lender's current USDC value in stroops, interest included. -/
def getSupplyBalance (A : Arith) (w : World τ ρ) (lender : Address) : Int :=
  (A.mul (supplyBalanceOf w lender) (projected A w).supplyIndex).tdiv INDEX_ONE

/-- Pool totals projected to the current ledger. -/
def getPoolTotals (A : Arith) (w : World τ ρ) : PoolTotals :=
  let proto := projected A w
  let assets := totalSupplyAssets A proto proto.supplyIndex
  { totalSupplyAssets := assets
    totalBorrowed := proto.totalBorrowed
    reserveUsdc := proto.reserveUsdc
    available := max (A.sub assets proto.totalBorrowed) 0 }

end

end Writz.Lend
