import Writz.Relayer.LendEvents.ArchiveFile
import Writz.Soroban.Host

/-!
# Proofs: what the reader of an archive file accepts

The rows of an accepted file are rows of the expected contract, in the order of their ids, and none of
them comes after the file's cursor. Nothing is known of what they say.
-/

namespace Writz.Relayer

open Node

/-- What an accepted file is. -/
structure ParsedArchive.Accepted (file : ParsedArchive) (expected : ArchiveTarget) : Prop where
  cursor_valid : isValidCursor file.header.cursor = true
  contractId : ∀ row ∈ file.rows, row.contractId = expected.contractId
  upTo : ∀ row ∈ file.rows, textLt file.header.cursor row.id = false
  sorted : file.rows.Pairwise fun row row' => textLt row.id row'.id = true

variable {decode : DecodeRaw} {header : ArchiveHeader}

theorem parseHeader_eq_ok {h : Members} {expected : ArchiveTarget}
    (hr : parseHeader h expected = .ok header) :
    header.contractId = expected.contractId ∧ isValidCursor header.cursor = true := by
  simp only [parseHeader, bind_eq_ok, failIf_eq_ok] at hr
  obtain ⟨-, -, networkPassphrase, -, contractId, -, firstLedger, -, lastLedger, -, cursor, -, -, -, -,
    hcontract, -, hcursor, hheader⟩ := hr
  cases hheader
  exact ⟨not_not.mp hcontract, Bool.eq_true_of_not_eq_false hcursor⟩

theorem parseRow_eq_ok {previous line : Text} {n : Nat} {row : LendEventRow}
    (hr : parseRow decode header previous line n = .ok row) :
    row.contractId = header.contractId ∧ textLt previous row.id = true ∧
      textLt header.cursor row.id = false := by
  simp only [parseRow, bind_eq_ok, failIf_eq_ok] at hr
  obtain ⟨o, -, id, -, -, -, -, horder, -, hcursor, -, -, txHash, -, name, -, subject, -, data, -,
    rawXdr, -, hr⟩ := hr
  split at hr
  · obtain ⟨columns, -, hr⟩ := bind_eq_ok.mp hr
    obtain ⟨-, -, hr⟩ := bind_eq_ok.mp hr
    cases hr
    exact ⟨rfl, Bool.eq_true_of_not_eq_false horder, Bool.eq_false_of_not_eq_true hcursor⟩
  · obtain ⟨columns, hcolumns, -⟩ := bind_eq_ok.mp hr
    cases hcolumns

theorem parseRows_eq_ok {lines : List Text} :
    ∀ {previous : Text} {n : Nat} {rows : List LendEventRow},
      parseRows decode header previous n lines = .ok rows →
        (∀ row ∈ rows, row.contractId = header.contractId ∧ textLt previous row.id = true ∧
          textLt header.cursor row.id = false) ∧
          rows.Pairwise fun row row' => textLt row.id row'.id = true := by
  induction lines with
  | nil =>
    intro previous n rows hr
    cases hr
    exact ⟨fun row hrow => absurd hrow List.not_mem_nil, List.Pairwise.nil⟩
  | cons line lines ih =>
    intro previous n rows hr
    obtain ⟨row, hrow, hr⟩ := bind_eq_ok.mp hr
    obtain ⟨rest, hrest, hr⟩ := bind_eq_ok.mp hr
    cases hr
    obtain ⟨hcontract, hprevious, hcursor⟩ := parseRow_eq_ok hrow
    obtain ⟨hall, hsorted⟩ := ih hrest
    refine ⟨fun row' hrow' => ?_, List.pairwise_cons.mpr ⟨fun row' hrow' => (hall row' hrow').2.1, hsorted⟩⟩
    rcases List.mem_cons.mp hrow' with rfl | hrow'
    · exact ⟨hcontract, hprevious, hcursor⟩
    · obtain ⟨hcontract', hlater, hcursor'⟩ := hall row' hrow'
      exact ⟨hcontract', textLt_trans hprevious hlater, hcursor'⟩

theorem parseArchive_accepted {text : Text} {expected : ArchiveTarget} {file : ParsedArchive}
    (hr : parseArchive decode text expected = .ok file) : file.Accepted expected := by
  unfold parseArchive at hr
  split at hr
  · cases hr
  · obtain ⟨h, -, hr⟩ := bind_eq_ok.mp hr
    obtain ⟨header, hheader, hr⟩ := bind_eq_ok.mp hr
    obtain ⟨rows, hrows, hr⟩ := bind_eq_ok.mp hr
    obtain ⟨-, -, hr⟩ := bind_eq_ok.mp hr
    obtain ⟨-, -, hr⟩ := bind_eq_ok.mp hr
    cases hr
    obtain ⟨hcontract, hcursor⟩ := parseHeader_eq_ok hheader
    obtain ⟨hall, hsorted⟩ := parseRows_eq_ok hrows
    exact
      { cursor_valid := hcursor
        contractId := fun row hrow => (hall row hrow).1.trans hcontract
        upTo := fun row hrow => (hall row hrow).2.2
        sorted := hsorted }

end Writz.Relayer
