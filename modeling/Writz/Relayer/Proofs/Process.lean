import Writz.Relayer.LendRebuild.Rebuild

/-!
# Proofs: requests and file operations

What a request and a file operation leave, and the programs that leave the databases alone.
-/

namespace Writz.Relayer

open Node

variable {O : Environment} {α β : Type} {m m' : Machine}

/-! ## Steps -/

theorem request_eq_ok {k : Nat} : request O m = (.ok k, m') ↔
    O.fails m.requests = none ∧ k = m.requests ∧ m' = { m with requests := m.requests + 1 } := by
  cases hf : O.fails m.requests with
  | none => simp [request, hf, eq_comm]
  | some message => simp [request, hf]

theorem disk_eq_ok {u : Unit} : disk O m = (.ok u, m') ↔
    O.diskFails m.operations = none ∧ m' = { m with operations := m.operations + 1 } := by
  cases hf : O.diskFails m.operations with
  | none => simp [disk, hf, eq_comm]
  | some message => simp [disk, hf]

theorem ofResult_eq_ok {r : Node.Result α} {a : α} :
    (ofResult r : Async α) m = (.ok a, m') ↔ r = .ok a ∧ m = m' := by
  unfold ofResult
  rw [Program.ofExcept_eq_ok]
  cases r <;> simp [Except.mapError]

/-- The triple of a result. -/
theorem ofResult_triple {r : Node.Result α} {P E : Machine → Prop} {Q : α → Machine → Prop}
    (hQ : ∀ a, r = .ok a → ∀ s, P s → Q a s) (hE : ∀ s, P s → E s) :
    Program.Triple P (ofResult r : Async α) Q E := by
  intro s hs
  cases r with
  | error message => exact hE s hs
  | ok a => exact hQ a rfl s hs

theorem fail_eq_ok {message : Text} {a : α} : (fail message : Async α) m = (.ok a, m') ↔ False :=
  Program.throw_eq_ok

theorem now_eq_ok {t : Nat} : now O m = (.ok t, m') ↔ t = O.now m.operations ∧ m' = m := by
  unfold now
  simp only [Program.bind_eq_ok, Program.get_eq_ok, Program.pure_eq_ok]
  constructor
  · rintro ⟨_, _, ⟨rfl, rfl⟩, rfl, rfl⟩
    exact ⟨rfl, rfl⟩
  · rintro ⟨rfl, rfl⟩
    exact ⟨_, _, ⟨rfl, rfl⟩, rfl, rfl⟩

theorem txidArgument_eq_ok {txid : Bytes} {key : BytesN 32} :
    txidArgument txid m = (.ok key, m') ↔ txidKey txid = some key ∧ m = m' := by
  unfold txidArgument
  cases txidKey txid with
  | none => simp [fail_eq_ok]
  | some k => simp [Program.pure_eq_ok]

/-! ## Reading -/

/-- The databases and the deeds stay; requests and file operations may have been made. -/
structure Machine.Reads (m m' : Machine) : Prop where
  requests : m.requests ≤ m'.requests
  archive : m'.archive = m.archive
  releases : m'.releases = m.releases
  cosigned : m'.cosigned = m.cosigned

theorem Machine.Reads.refl (m : Machine) : m.Reads m := ⟨le_rfl, rfl, rfl, rfl⟩

theorem Machine.Reads.trans {m₁ m₂ m₃ : Machine} (h : m₁.Reads m₂) (h' : m₂.Reads m₃) :
    m₁.Reads m₃ :=
  ⟨h.requests.trans h'.requests, h'.archive.trans h.archive, h'.releases.trans h.releases,
    h'.cosigned.trans h.cosigned⟩

/-- A program that only reads, however it ends. -/
def OnlyReads (p : Async α) : Prop := ∀ m : Machine, m.Reads (p m).2

namespace OnlyReads

variable {p : Async α} {f : α → Async β}

theorem of_eq (h : OnlyReads p) {r : Except Failure α} (he : p m = (r, m')) : m.Reads m' := by
  have hm := h m
  rwa [he] at hm

protected theorem pure (a : α) : OnlyReads (pure a : Async α) := fun m => .refl m

protected theorem throw (e : Failure) : OnlyReads (throw e : Async α) := fun m => .refl m

theorem fail (message : Text) : OnlyReads (Relayer.fail message : Async α) := fun m => .refl m

theorem ofResult (r : Node.Result α) : OnlyReads (Relayer.ofResult r) := fun m => .refl m

theorem get : OnlyReads (Program.get : Async Machine) := fun m => .refl m

protected theorem bind (hp : OnlyReads p) (hf : ∀ a, OnlyReads (f a)) : OnlyReads (p >>= f) := by
  intro m
  change m.Reads (Program.bind p f m).2
  unfold Program.bind
  have hm := hp m
  rcases hr : p m with ⟨_ | a, m₁⟩
  · rw [hr] at hm
    exact hm
  · rw [hr] at hm
    exact hm.trans (hf a m₁)

theorem request : OnlyReads (Relayer.request O) := by
  intro m
  simp only [Relayer.request]
  cases O.fails m.requests <;> exact ⟨Nat.le_succ _, rfl, rfl, rfl⟩

theorem disk : OnlyReads (Relayer.disk O) := by
  intro m
  simp only [Relayer.disk]
  cases O.diskFails m.operations <;> exact ⟨le_rfl, rfl, rfl, rfl⟩

theorem txidArgument (txid : Bytes) : OnlyReads (Relayer.txidArgument txid) := by
  unfold Relayer.txidArgument
  cases txidKey txid with
  | none => exact fail _
  | some key => exact .pure key

theorem getPosition (txid : Bytes) : OnlyReads (Relayer.getPosition O txid) :=
  .bind (txidArgument txid) fun _ => .bind request fun _ => .pure _

theorem getReleasePsbt (txid : Bytes) : OnlyReads (Relayer.getReleasePsbt O txid) :=
  .bind (txidArgument txid) fun _ => .bind request fun _ => .pure _

theorem getScaledSupply (lender : Text) : OnlyReads (Relayer.getScaledSupply O lender) :=
  .bind request fun _ => .pure _

theorem getTotalScaledSupply : OnlyReads (Relayer.getTotalScaledSupply O) :=
  .bind request fun _ => .pure _

end OnlyReads

/-! ## Reading in a rebuild -/

theorem onlyReads_readPage (deployLedger : Option Nat) (store : LendEventStore) :
    OnlyReads (readPage O deployLedger store) :=
  .bind (.ofResult _) fun _ => .bind .request fun _ => .bind .disk fun _ => .bind (.ofResult _) fun _ => .pure _

theorem onlyReads_readPages (deployLedger : Option Nat) (pages : Nat) (store : LendEventStore) :
    OnlyReads (readPages O deployLedger pages store) := by
  induction pages generalizing store with
  | zero => exact .pure _
  | succ pages ih =>
    refine (onlyReads_readPage deployLedger store).bind fun ⟨store, more⟩ => ?_
    cases more
    · exact .pure _
    · exact ih store

theorem onlyReads_catchUp (deployLedger cycles : Nat) (store : LendEventStore) :
    OnlyReads (catchUp O deployLedger cycles store) := by
  induction cycles generalizing store with
  | zero => exact .fail _
  | succ cycles ih =>
    refine (onlyReads_readPages _ _ store).bind fun ⟨store, reached⟩ => ?_
    cases reached
    · exact ih store
    · exact .pure _

theorem onlyReads_verifyPositions (positions : JsMap Text Lend.PositionStatus) :
    OnlyReads (verifyPositions O positions) := by
  induction positions with
  | nil => exact .pure _
  | cons entry positions ih =>
    obtain ⟨txid, expected⟩ := entry
    refine OnlyReads.bind ((OnlyReads.getPosition _).bind fun _ => .pure _) fun status => ?_
    split_ifs
    · exact .pure _
    · exact ih

theorem onlyReads_verifySuppliers (suppliers : JsMap Text Int) :
    OnlyReads (verifySuppliers O suppliers) := by
  induction suppliers with
  | nil => exact .pure _
  | cons entry suppliers ih =>
    obtain ⟨supplier, expected⟩ := entry
    refine (OnlyReads.getScaledSupply supplier).bind fun scaled => ?_
    split_ifs
    · exact .pure _
    · exact ih

theorem onlyReads_withoutRelease (txids : List Text) : OnlyReads (withoutRelease O txids) := by
  induction txids with
  | nil => exact .pure _
  | cons txid txids ih =>
    exact OnlyReads.bind ((OnlyReads.getReleasePsbt _).bind fun _ => .pure _) fun _ =>
      ih.bind fun _ => .pure _

theorem onlyReads_verifyAgainstChain (state : ReplayedState) :
    OnlyReads (verifyAgainstChain O state) := by
  refine (onlyReads_verifyPositions _).bind fun position => ?_
  split_ifs
  · exact .pure _
  · refine (onlyReads_verifySuppliers _).bind fun supplier => ?_
    split_ifs
    · exact .pure _
    · refine .bind .getTotalScaledSupply fun total => ?_
      split_ifs
      · exact .pure _
      · exact (onlyReads_withoutRelease _).bind fun _ => .pure _

theorem onlyReads_verifyRounds (deployLedger rounds : Nat) (store : LendEventStore) :
    OnlyReads (verifyRounds O deployLedger rounds store) := by
  induction rounds generalizing store with
  | zero =>
    refine (OnlyReads.ofResult _).bind fun _ => (onlyReads_verifyAgainstChain _).bind fun result =>
      (onlyReads_catchUp _ _ _).bind fun _ => ?_
    split_ifs
    · exact .fail _
    · cases result.mismatch with
      | none => exact .pure _
      | some mismatch => exact .throw _
  | succ rounds ih =>
    refine (OnlyReads.ofResult _).bind fun _ => (onlyReads_verifyAgainstChain _).bind fun result =>
      (onlyReads_catchUp _ _ _).bind fun _ => ?_
    split_ifs
    · exact ih _
    · cases result.mismatch with
      | none => exact .pure _
      | some mismatch => exact .throw _

theorem onlyReads_openTemp (archive : Option ArchiveSource) : OnlyReads (openTemp O archive) := by
  cases archive with
  | none => exact .pure _
  | some archive => exact .bind .disk fun _ => .ofResult _

end Writz.Relayer
