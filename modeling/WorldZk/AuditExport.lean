import WorldZk.CsvGrammar
import Mathlib.Data.List.Basic
import Mathlib.Data.Set.Function

/-!
# CSV audit export

Two writers of one format. Each quotes a single column, the one expected to hold free text, and
puts every other text down as it is.
-/

namespace WorldZk.AuditExport

open CsvGrammar

/-! ## Records -/

structure AuditEntry where
  timestamp : List Char
  eventType : List Char
  resultId : List Char
  txHash : List Char
  blockNumber : ℕ
  actor : List Char
  modelHash : List Char
  details : List Char
  outcome : List Char
  gasUsed : ℕ

structure AuditRecord where
  timestamp : List Char
  modelHash : List Char
  inputHash : List Char
  output : List Char
  proofHash : List Char
  verificationStatus : List Char
  gasUsed : Option ℕ

/-- `str::replace` of one character. -/
def replace (c : Char) (new text : List Char) : List Char :=
  text.flatMap fun d => if d = c then new else [d]

/-- `u64::to_string`. -/
def decimal (n : ℕ) : List Char := Nat.toDigits 10 n

/-- `gas_used.map_or(String::new(), |g| g.to_string())`. -/
def gasText : Option ℕ → List Char
  | none => []
  | some gas => decimal gas

/-! ## Writers -/

def recordLine (r : AuditRecord) : List Char :=
  r.timestamp ++ [','] ++ r.modelHash ++ [','] ++ r.inputHash ++ [',', '"'] ++
    replace '"' ['"', '"'] r.output ++ ['"', ','] ++ r.proofHash ++ [','] ++
    r.verificationStatus ++ [','] ++ gasText r.gasUsed ++ ['\n']

def recordHeader : List Char :=
  "timestamp,model_hash,input_hash,output,proof_hash,verification_status,gas_used\n".toList

def writeRecordsCsv (records : List AuditRecord) : List Char :=
  recordHeader ++ records.flatMap recordLine

def entryLine (e : AuditEntry) : List Char :=
  e.timestamp ++ [','] ++ e.eventType ++ [','] ++ e.resultId ++ [','] ++ e.txHash ++ [','] ++
    decimal e.blockNumber ++ [','] ++ e.actor ++ [','] ++ e.modelHash ++ [','] ++
    e.outcome ++ [','] ++ decimal e.gasUsed ++ [',', '"'] ++
    replace '"' ['"', '"'] e.details ++ ['"', '\n']

def entryHeader : List Char :=
  ("timestamp,event_type,result_id,tx_hash,block_number,actor,model_hash,outcome,gas_used," ++
    "details\n").toList

def exportCsv (entries : List AuditEntry) : List Char :=
  entryHeader ++ entries.flatMap entryLine

/-! ## Rows -/

def recordColumns : List (List Char) :=
  ["timestamp".toList, "model_hash".toList, "input_hash".toList, "output".toList,
    "proof_hash".toList, "verification_status".toList, "gas_used".toList]

def entryColumns : List (List Char) :=
  ["timestamp".toList, "event_type".toList, "result_id".toList, "tx_hash".toList,
    "block_number".toList, "actor".toList, "model_hash".toList, "outcome".toList,
    "gas_used".toList, "details".toList]

def AuditRecord.row (r : AuditRecord) : List (List Char) :=
  [r.timestamp, r.modelHash, r.inputHash, r.output, r.proofHash, r.verificationStatus,
    gasText r.gasUsed]

def AuditEntry.row (e : AuditEntry) : List (List Char) :=
  [e.timestamp, e.eventType, e.resultId, e.txHash, decimal e.blockNumber, e.actor,
    e.modelHash, e.outcome, decimal e.gasUsed, e.details]

theorem decimal_injective {m n : ℕ} (h : decimal m = decimal n) : m = n := by
  have hm : Nat.ofDigitChars 10 (Nat.toDigits 10 m) 0 = m :=
    Nat.ofDigitChars_toDigits (by decide) (by decide)
  rw [← hm, show Nat.toDigits 10 m = Nat.toDigits 10 n from h,
    Nat.ofDigitChars_toDigits (by decide) (by decide)]

theorem gasText_injective {gas gas' : Option ℕ} (h : gasText gas = gasText gas') : gas = gas' := by
  cases gas with
  | none =>
    cases gas' with
    | none => rfl
    | some gas' => exact absurd h.symm Nat.toDigits_ne_nil
  | some gas =>
    cases gas' with
    | none => exact absurd h Nat.toDigits_ne_nil
    | some gas' => exact congrArg some (decimal_injective h)

/-- A row tells the record apart from every other. -/
theorem AuditRecord.row_injective : Function.Injective AuditRecord.row := by
  intro r r' h
  cases r
  cases r'
  simp only [row, List.cons.injEq, and_true] at h
  obtain ⟨rfl, rfl, rfl, rfl, rfl, rfl, hgas⟩ := h
  rw [gasText_injective hgas]

theorem AuditEntry.row_injective : Function.Injective AuditEntry.row := by
  intro e e' h
  cases e
  cases e'
  simp only [row, List.cons.injEq, and_true] at h
  obtain ⟨rfl, rfl, rfl, rfl, hblock, rfl, rfl, rfl, hgas, rfl⟩ := h
  rw [decimal_injective hblock, decimal_injective hgas]

/-! ## Writers as printers of cells -/

def bare (v : List Char) : Cell := ⟨false, v⟩

def AuditRecord.cells (r : AuditRecord) : List Cell :=
  [bare r.timestamp, bare r.modelHash, bare r.inputHash, ⟨true, r.output⟩, bare r.proofHash,
    bare r.verificationStatus, bare (gasText r.gasUsed)]

def AuditEntry.cells (e : AuditEntry) : List Cell :=
  [bare e.timestamp, bare e.eventType, bare e.resultId, bare e.txHash,
    bare (decimal e.blockNumber), bare e.actor, bare e.modelHash, bare e.outcome,
    bare (decimal e.gasUsed), ⟨true, e.details⟩]

theorem print_bare (v : List Char) : (bare v).print = v := rfl

theorem print_quoted (v : List Char) :
    Cell.print ⟨true, v⟩ = '"' :: (replace '"' ['"', '"'] v ++ ['"']) := rfl

theorem recordLine_eq (r : AuditRecord) : recordLine r = printRow r.cells ++ ['\n'] := by
  unfold recordLine AuditRecord.cells
  simp only [printRow_cons_cons, printRow_single, print_bare, print_quoted, List.append_assoc,
    List.cons_append, List.nil_append]

theorem entryLine_eq (e : AuditEntry) : entryLine e = printRow e.cells ++ ['\n'] := by
  unfold entryLine AuditEntry.cells
  simp only [printRow_cons_cons, printRow_single, print_bare, print_quoted, List.append_assoc,
    List.cons_append, List.nil_append]

theorem recordHeader_eq : recordHeader = printRow (recordColumns.map bare) ++ ['\n'] := by
  decide +kernel

theorem entryHeader_eq : entryHeader = printRow (entryColumns.map bare) ++ ['\n'] := by
  decide +kernel

theorem writeRecordsCsv_eq (records : List AuditRecord) :
    writeRecordsCsv records =
      printFile (recordColumns.map bare :: records.map AuditRecord.cells) := by
  rw [writeRecordsCsv, recordHeader_eq, printFile, List.flatMap_cons, List.flatMap_map,
    funext recordLine_eq]

theorem exportCsv_eq (entries : List AuditEntry) :
    exportCsv entries = printFile (entryColumns.map bare :: entries.map AuditEntry.cells) := by
  rw [exportCsv, entryHeader_eq, printFile, List.flatMap_cons, List.flatMap_map,
    funext entryLine_eq]

/-! ## Reading back -/

/-- The one reading of a text. -/
def ReadsAs (text : List Char) (rows : List (List (List Char))) : Prop :=
  File true text rows ∧ ∀ rows', File true text rows' → rows' = rows

/-- The texts a record puts down without quotes. -/
def AuditRecord.IsPlain (r : AuditRecord) : Prop :=
  ∀ v ∈ [r.timestamp, r.modelHash, r.inputHash, r.proofHash, r.verificationStatus],
    CsvGrammar.IsPlain v

def AuditEntry.IsPlain (e : AuditEntry) : Prop :=
  ∀ v ∈ [e.timestamp, e.eventType, e.resultId, e.txHash, e.actor, e.modelHash, e.outcome],
    CsvGrammar.IsPlain v

theorem isPlain_decimal (n : ℕ) : CsvGrammar.IsPlain (decimal n) := by
  intro c hc
  have hdigit := Nat.isDigit_of_mem_toDigits (by decide) (by decide) hc
  refine ⟨?_, ?_, ?_, ?_⟩
  all_goals
    rintro rfl
    exact absurd hdigit (by decide)

theorem isPlain_gasText (gas : Option ℕ) : CsvGrammar.IsPlain (gasText gas) := by
  cases gas with
  | none => exact List.forall_mem_nil _
  | some gas => exact isPlain_decimal gas

theorem readable_bare {v : List Char} : (bare v).Readable ↔ CsvGrammar.IsPlain v :=
  or_iff_right Bool.false_ne_true

theorem readable_quoted (v : List Char) : Cell.Readable ⟨true, v⟩ := .inl rfl

theorem AuditRecord.readable_cells (r : AuditRecord) :
    (∀ cell ∈ r.cells, cell.Readable) ↔ r.IsPlain := by
  simp only [cells, IsPlain, List.forall_mem_cons, readable_bare, readable_quoted,
    isPlain_gasText, true_and, and_true, List.not_mem_nil, false_imp_iff, implies_true]

theorem AuditEntry.readable_cells (e : AuditEntry) :
    (∀ cell ∈ e.cells, cell.Readable) ↔ e.IsPlain := by
  simp only [cells, IsPlain, List.forall_mem_cons, readable_bare, readable_quoted,
    isPlain_decimal, true_and, and_true, List.not_mem_nil, false_imp_iff, implies_true]

theorem readable_recordColumns : ∀ cell ∈ recordColumns.map bare, cell.Readable :=
  List.forall_mem_map.mpr fun v hv => readable_bare.mpr (by revert v; decide +kernel)

theorem readable_entryColumns : ∀ cell ∈ entryColumns.map bare, cell.Readable :=
  List.forall_mem_map.mpr fun v hv => readable_bare.mpr (by revert v; decide +kernel)

section Exports

variable {α : Type} {columns : List (List Char)} {cells : α → List Cell} {xs : List α}

/-- A bare header and a line of cells for each item. -/
theorem readsAs_printFile_iff (hcolumns : columns ≠ [])
    (hheader : ∀ cell ∈ columns.map bare, cell.Readable) (hcells : ∀ x, cells x ≠ []) :
    ReadsAs (printFile (columns.map bare :: xs.map cells))
        (columns :: xs.map fun x => rowValues (cells x)) ↔
      ∀ x ∈ xs, ∀ cell ∈ cells x, cell.Readable := by
  have hne : ∀ row ∈ columns.map bare :: xs.map cells, row ≠ [] :=
    List.forall_mem_cons.mpr ⟨fun h => hcolumns (List.map_eq_nil_iff.mp h),
      List.forall_mem_map.mpr fun x _ => hcells x⟩
  have hrows : (columns.map bare :: xs.map cells).map rowValues =
      columns :: xs.map fun x => rowValues (cells x) := by
    have hcolumn : Cell.value ∘ bare = id := rfl
    rw [List.map_cons, List.map_map, rowValues, List.map_map, hcolumn, List.map_id]
    rfl
  have hfile := file_printFile_iff hne
  rw [hrows, List.forall_mem_cons, and_iff_right hheader, List.forall_mem_map] at hfile
  rw [← hfile]
  exact ⟨And.left, fun h => ⟨h, fun rows' h' => h'.unique h⟩⟩

end Exports

theorem writeRecordsCsv_readsAs_iff (records : List AuditRecord) :
    ReadsAs (writeRecordsCsv records) (recordColumns :: records.map AuditRecord.row) ↔
      ∀ r ∈ records, r.IsPlain := by
  rw [writeRecordsCsv_eq]
  refine (readsAs_printFile_iff (List.cons_ne_nil _ _) readable_recordColumns
    fun r => List.cons_ne_nil _ _).trans ?_
  exact forall₂_congr fun r _ => r.readable_cells

theorem exportCsv_readsAs_iff (entries : List AuditEntry) :
    ReadsAs (exportCsv entries) (entryColumns :: entries.map AuditEntry.row) ↔
      ∀ e ∈ entries, e.IsPlain := by
  rw [exportCsv_eq]
  refine (readsAs_printFile_iff (List.cons_ne_nil _ _) readable_entryColumns
    fun e => List.cons_ne_nil _ _).trans ?_
  exact forall₂_congr fun e _ => e.readable_cells

/-- An export reads back as its records exactly when the texts it puts down bare hold no comma, no
quote and no line break. -/
theorem csv_readsAs_iff (records : List AuditRecord) (entries : List AuditEntry) :
    (ReadsAs (writeRecordsCsv records) (recordColumns :: records.map AuditRecord.row) ↔
      ∀ r ∈ records, r.IsPlain) ∧
    (ReadsAs (exportCsv entries) (entryColumns :: entries.map AuditEntry.row) ↔
      ∀ e ∈ entries, e.IsPlain) :=
  ⟨writeRecordsCsv_readsAs_iff records, exportCsv_readsAs_iff entries⟩

/-! ## A forged row -/

/-- The model hash closes a row of its own. -/
def forgingRecord : AuditRecord where
  timestamp := "t".toList
  modelHash := "m,i,\"o\",p,finalized,\nu,n".toList
  inputHash := "j".toList
  output := "q".toList
  proofHash := "r".toList
  verificationStatus := "pending".toList
  gasUsed := none

def forgedRecord : AuditRecord where
  timestamp := "t".toList
  modelHash := "m".toList
  inputHash := "i".toList
  output := "o".toList
  proofHash := "p".toList
  verificationStatus := "finalized".toList
  gasUsed := none

def leftoverRecord : AuditRecord where
  timestamp := "u".toList
  modelHash := "n".toList
  inputHash := "j".toList
  output := "q".toList
  proofHash := "r".toList
  verificationStatus := "pending".toList
  gasUsed := none

theorem forgingRecord_not_readsAs :
    writeRecordsCsv [forgingRecord] = writeRecordsCsv [forgedRecord, leftoverRecord] ∧
      ¬ReadsAs (writeRecordsCsv [forgingRecord])
        (recordColumns :: [forgingRecord].map AuditRecord.row) := by
  have hlines : recordLine forgingRecord = recordLine forgedRecord ++ recordLine leftoverRecord := by
    decide +kernel
  refine ⟨?_, ?_⟩
  · simp only [writeRecordsCsv, List.flatMap_cons, List.flatMap_nil, List.append_nil, hlines]
  rw [writeRecordsCsv_readsAs_iff, List.forall_mem_singleton]
  intro hplain
  have hhash := hplain forgingRecord.modelHash (.tail _ (.head _))
  revert hhash
  decide +kernel

/-! ## What a reader can tell -/

/-- Both writers end a line with LF, so no export is a text of the grammar with CRLF alone. -/
theorem not_file_crlf (records : List AuditRecord) (entries : List AuditEntry)
    (rows : List (List (List Char))) :
    ¬File false (writeRecordsCsv records) rows ∧ ¬File false (exportCsv entries) rows := by
  rw [writeRecordsCsv_eq, exportCsv_eq]
  exact ⟨not_file_printFile readable_recordColumns, not_file_printFile readable_entryColumns⟩

theorem writeRecordsCsv_injOn : Set.InjOn writeRecordsCsv {records | ∀ r ∈ records, r.IsPlain} := by
  intro records hrecords records' hrecords' h
  have hreads := (writeRecordsCsv_readsAs_iff records).mpr hrecords
  rw [h] at hreads
  have hrows := ((writeRecordsCsv_readsAs_iff records').mpr hrecords').2 _ hreads.1
  exact AuditRecord.row_injective.list_map (List.cons.inj hrows).2

theorem exportCsv_injOn : Set.InjOn exportCsv {entries | ∀ e ∈ entries, e.IsPlain} := by
  intro entries hentries entries' hentries' h
  have hreads := (exportCsv_readsAs_iff entries).mpr hentries
  rw [h] at hreads
  have hrows := ((exportCsv_readsAs_iff entries').mpr hentries').2 _ hreads.1
  exact AuditEntry.row_injective.list_map (List.cons.inj hrows).2

/-- Plain records are known by their export, every value of theirs included, and a reader that takes
CRLF for the only line end reads none. -/
theorem exports_tell_apart :
    Set.InjOn writeRecordsCsv {records | ∀ r ∈ records, r.IsPlain} ∧
      Set.InjOn exportCsv {entries | ∀ e ∈ entries, e.IsPlain} ∧
        ∀ records entries rows,
          ¬File false (writeRecordsCsv records) rows ∧ ¬File false (exportCsv entries) rows :=
  ⟨writeRecordsCsv_injOn, exportCsv_injOn, not_file_crlf⟩

end WorldZk.AuditExport
