import WorldZk.EngineSettlement
import WorldZk.ProgramRegistry
import Mathlib.Data.List.Range

/-!
# Paginated views

The engine lists its open requests by a scan with two counters, the registry cuts a piece out of a
list of programs. Both are a page of a list: some elements are dropped and some of the rest are
taken. The registry computes the end of the piece before it compares it with the length of the
list, and reverts when that sum overflows.
-/

namespace WorldZk.PaginatedViews

open CheckedRuns ReentrantCalls OwnedContracts ExecutionEngine EngineAccounts EngineSettlement
open ProgramRegistry (ProgramStorage)

/-! ## Pages of a list -/

section Pages

variable {α : Type} {x : α} {xs : List α} {offset limit n : ℕ}

def page (xs : List α) (offset limit : ℕ) : List α := (xs.drop offset).take limit

theorem page_nil : page ([] : List α) offset limit = [] := by
  rw [page, List.drop_nil, List.take_nil]

theorem page_limit_zero : page xs offset 0 = [] := rfl

theorem page_cons_zero : page (x :: xs) 0 (limit + 1) = x :: page xs 0 limit := rfl

theorem page_cons_succ : page (x :: xs) (offset + 1) limit = page xs offset limit := rfl

theorem page_eq_nil (h : xs.length ≤ offset) : page xs offset limit = [] := by
  rw [page, List.drop_eq_nil_of_le h, List.take_nil]

theorem getElem?_page {i : ℕ} (hi : i < limit) : (page xs offset limit)[i]? = xs[offset + i]? := by
  rw [page, List.getElem?_take_of_lt hi, List.getElem?_drop]

theorem flatMap_page (xs : List α) (limit n : ℕ) :
    ((List.range n).flatMap fun k => page xs (k * limit) limit) = xs.take (n * limit) := by
  induction n with
  | zero => rw [List.range_zero, List.flatMap_nil, Nat.zero_mul, List.take_zero]
  | succ n ih =>
    rw [List.range_succ, List.flatMap_append, ih, List.flatMap_singleton, Nat.succ_mul,
      List.take_add]
    rfl

theorem flatten_mapM_page {ε : Type} {view : ℕ → ℕ → Except ε (List α)}
    (hview : ∀ k < n, view (k * limit) limit = .ok (page xs (k * limit) limit)) :
    List.flatten <$> (List.range n).mapM (fun k => view (k * limit) limit) =
      .ok (xs.take (n * limit)) := by
  rw [mapM_of_ok fun k hk => hview k (List.mem_range.mp hk), map_eq_ok]
  refine ⟨_, rfl, ?_⟩
  rw [← List.flatMap_def]
  exact flatMap_page xs limit n

end Pages

/-! ## Open requests of the engine -/

/-- `req.status == RequestStatus.Pending && block.timestamp <= req.expiresAt`. -/
def isOpen (timestamp : ℕ) (req : ExecutionRequest) : Bool :=
  req.status == .pending && decide (timestamp ≤ req.expiresAt)

/-- The loop of `getPendingRequests`. The array `pending` is the list of the places filled so far,
and `count` is its length. -/
def scanPending (c : EngineStorage) (timestamp offset limit : ℕ) :
    ℕ → ℕ → List ℕ → ℕ → EngineCall (List ℕ)
  | 0, _, _, _ => .error .panicOverflow
  | fuel + 1, i, pending, checked =>
    if i < c.nextRequestId ∧ pending.length < limit then
      if isOpen timestamp (c.requests i) then do
        if offset ≤ checked then do
          let _count ← checkedAdd .panicOverflow pending.length 1
          let checked ← checkedAdd .panicOverflow checked 1
          let next ← checkedAdd .panicOverflow i 1
          scanPending c timestamp offset limit fuel next (pending ++ [i]) checked
        else do
          let checked ← checkedAdd .panicOverflow checked 1
          let next ← checkedAdd .panicOverflow i 1
          scanPending c timestamp offset limit fuel next pending checked
      else do
        let next ← checkedAdd .panicOverflow i 1
        scanPending c timestamp offset limit fuel next pending checked
    else pure pending

def getPendingRequests (c : EngineStorage) (timestamp offset limit : ℕ) : EngineCall (List ℕ) :=
  scanPending c timestamp offset limit (c.nextRequestId + 1) 1 [] 0

/-- The numbers of the requests that are pending and not expired, in increasing order. -/
def pendingIds (c : EngineStorage) (timestamp : ℕ) : List ℕ :=
  (List.range' 1 (c.nextRequestId - 1)).filter fun i => isOpen timestamp (c.requests i)

/-! ## Programs of the registry -/

inductive ViewPanic
  | arithmetic
  | outOfBounds
deriving DecidableEq, Repr

/-- The body of both views, on the ids in storage. -/
def cutPage (ids : List ℕ) (offset limit : ℕ) : Except ViewPanic (List ℕ) :=
  let total := ids.length
  if total ≤ offset then pure []
  else do
    let sum ← checkedAdd .arithmetic offset limit
    let last := if total < sum then total else sum
    let size ← checkedSub .arithmetic last offset
    (List.range size).mapM fun k => getOr .outOfBounds ids (offset + k)

def getAllPrograms (c : ProgramStorage) (offset limit : ℕ) : Except ViewPanic (List ℕ) :=
  cutPage c.programIds offset limit

def getOwnerPrograms (c : ProgramStorage) (owner offset limit : ℕ) :
    Except ViewPanic (List ℕ) :=
  cutPage (c.ownerPrograms owner) offset limit

section Cut

variable {ids : List ℕ} {offset limit : ℕ}

theorem cutPage_of_lt (hsum : offset + limit < UINT256) (hoffset : offset < ids.length) :
    cutPage ids offset limit = .ok (page ids offset limit) := by
  have hlast : (if ids.length < offset + limit then ids.length else offset + limit) =
      min ids.length (offset + limit) := by
    split
    · exact (min_eq_left (by omega)).symm
    · exact (min_eq_right (by omega)).symm
  simp only [cutPage, if_neg (Nat.not_le_of_lt hoffset), bind_eq_ok, checkedAdd_eq_ok,
    checkedSub_eq_ok]
  refine ⟨_, ⟨hsum, rfl⟩, _, ⟨?_, rfl⟩, ?_⟩
  · rw [hlast]
    omega
  · rw [hlast, mapM_eq_ok, List.forall₂_iff_get]
    have hlength : (page ids offset limit).length = min ids.length (offset + limit) - offset := by
      rw [page, List.length_take, List.length_drop]
      omega
    refine ⟨by rw [List.length_range, hlength], fun k hk hk' => ?_⟩
    have hlimit : k < limit := by
      rw [hlength] at hk'
      omega
    rw [List.get_eq_getElem, List.get_eq_getElem, List.getElem_range, getOr_eq_ok,
      ← getElem?_page hlimit, List.getElem?_eq_getElem]

/-- A page is cut out exactly when it begins behind the list or its end is no overflow. -/
theorem cutPage_eq_ok_iff :
    cutPage ids offset limit = .ok (page ids offset limit) ↔
      ids.length ≤ offset ∨ offset + limit < UINT256 := by
  by_cases hoffset : ids.length ≤ offset
  · have hcut : cutPage ids offset limit = .ok [] := if_pos hoffset
    rw [hcut, page_eq_nil hoffset]
    exact iff_of_true rfl (.inl hoffset)
  · constructor
    · intro h
      simp only [cutPage, if_neg hoffset, bind_eq_ok, checkedAdd_eq_ok] at h
      obtain ⟨_, ⟨hsum, -⟩, -⟩ := h
      exact .inr hsum
    · intro h
      exact cutPage_of_lt (h.resolve_left hoffset) (Nat.lt_of_not_le hoffset)

theorem flatten_cutPage (ids : List ℕ) {n : ℕ} (h : n * limit < UINT256) :
    List.flatten <$> (List.range n).mapM (fun k => cutPage ids (k * limit) limit) =
      .ok (ids.take (n * limit)) := by
  refine flatten_mapM_page fun k hk => cutPage_eq_ok_iff.mpr (.inr (lt_of_le_of_lt ?_ h))
  rw [← Nat.succ_mul]
  exact Nat.mul_le_mul_right limit hk

end Cut

/-! ## The scan -/

section Scan

variable {c : EngineStorage} {timestamp offset limit fuel i checked : ℕ} {pending : List ℕ}

/-- The open requests from a number on. -/
def pendingFrom (c : EngineStorage) (timestamp i : ℕ) : List ℕ :=
  (List.range' i (c.nextRequestId - i)).filter fun i => isOpen timestamp (c.requests i)

theorem pendingFrom_of_le (h : c.nextRequestId ≤ i) : pendingFrom c timestamp i = [] := by
  rw [pendingFrom, Nat.sub_eq_zero_of_le h]
  rfl

theorem pendingFrom_of_lt (h : i < c.nextRequestId) :
    pendingFrom c timestamp i =
      if isOpen timestamp (c.requests i) then i :: pendingFrom c timestamp (i + 1)
      else pendingFrom c timestamp (i + 1) := by
  have hsucc : c.nextRequestId - i = c.nextRequestId - (i + 1) + 1 := by omega
  rw [pendingFrom, hsucc, List.range'_succ, List.filter_cons]
  rfl

/-- The two counters leave the page of what is still to come. -/
theorem scanPending_eq (hnext : c.nextRequestId < UINT256) (hfuel : c.nextRequestId - i < fuel)
    (hchecked : checked < i) (hcount : pending.length < i) :
    scanPending c timestamp offset limit fuel i pending checked =
      .ok (pending ++ page (pendingFrom c timestamp i) (offset - checked)
        (limit - pending.length)) := by
  induction fuel generalizing i pending checked with
  | zero => omega
  | succ fuel ih =>
    rw [scanPending]
    split
    case isFalse hstop =>
      have hempty : page (pendingFrom c timestamp i) (offset - checked)
          (limit - pending.length) = [] := by
        by_cases hlast : i < c.nextRequestId
        · have hfull : limit - pending.length = 0 :=
            Nat.sub_eq_zero_of_le (not_lt.mp fun h => hstop ⟨hlast, h⟩)
          rw [hfull, page_limit_zero]
        · rw [pendingFrom_of_le (not_lt.mp hlast), page_nil]
      rw [hempty, List.append_nil]
      rfl
    case isTrue hgo =>
      obtain ⟨hlast, hroom⟩ := hgo
      have hi : checkedAdd EngineError.panicOverflow i 1 = .ok (i + 1) :=
        checkedAdd_eq_ok.mpr ⟨by omega, rfl⟩
      have hseen : checkedAdd EngineError.panicOverflow checked 1 = .ok (checked + 1) :=
        checkedAdd_eq_ok.mpr ⟨by omega, rfl⟩
      have hfilled : checkedAdd EngineError.panicOverflow pending.length 1 =
          .ok (pending.length + 1) := checkedAdd_eq_ok.mpr ⟨by omega, rfl⟩
      rw [pendingFrom_of_lt hlast]
      split
      case isFalse hclosed =>
        rw [hi, ok_bind, ih (by omega) (by omega) (by omega)]
      case isTrue hopen =>
        split
        case isTrue hskipped =>
          have hroom' : limit - pending.length = limit - (pending.length + 1) + 1 := by omega
          rw [hi, hseen, hfilled, ok_bind, ok_bind, ok_bind, ih (by omega) (by omega)
            (by rw [List.length_append, List.length_singleton]; omega),
            List.length_append, List.length_singleton, Nat.sub_eq_zero_of_le hskipped,
            Nat.sub_eq_zero_of_le (by omega : offset ≤ checked + 1), hroom', page_cons_zero,
            List.append_assoc, List.singleton_append]
        case isFalse hskip =>
          have hoffset : offset - checked = offset - (checked + 1) + 1 := by omega
          rw [hi, hseen, ok_bind, ok_bind, ih (by omega) (by omega) (by omega), hoffset,
            page_cons_succ]

theorem getPendingRequests_eq (hnext : c.nextRequestId < UINT256) (offset limit : ℕ) :
    getPendingRequests c timestamp offset limit =
      .ok (page (pendingIds c timestamp) offset limit) :=
  scanPending_eq hnext (Nat.lt_succ_of_le (Nat.sub_le _ _)) Nat.one_pos Nat.one_pos

end Scan

/-! ## Numbers of requests -/

/-- Every number below the next one belongs to a request, and the next one is a word. -/
structure Numbered (c : EngineStorage) : Prop where
  next : c.nextRequestId < UINT256
  id : ∀ i, 0 < i → i < c.nextRequestId → (c.requests i).id = i

section Numbers

variable {s : EngineState} {ctx : CallContext} {outside : Outside}
  {requestId : ℕ} {req : ExecutionRequest}

theorem Numbered.update {c c' : EngineStorage} (h : Numbered c)
    (hrequests : c'.requests = Function.update c.requests requestId req)
    (hnext : c'.nextRequestId = c.nextRequestId) (hid : req.id = (c.requests requestId).id) :
    Numbered c' := by
  refine ⟨hnext ▸ h.next, fun i hpos hi => ?_⟩
  rw [hnext] at hi
  rw [hrequests]
  by_cases heq : i = requestId
  · rw [heq, Function.update_self, hid, ← heq]
    exact h.id i hpos hi
  · rw [Function.update_of_ne heq]
    exact h.id i hpos hi

theorem aboutRequests_numbered :
    AboutRequests (fun s => Numbered s.storage) (fun _ _ => True) fun s => Numbered s.storage where
  holds := fun _ ht => ht
  resume := fun _ _ _ hu _ => hu
  update := fun _ _ _ _ ht hterms hrequests hnext => ht.update hrequests hnext hterms.id

private theorem requestExecution_numbered {c c' : EngineStorage}
    {imageId inputDigest callbackContract expirationSeconds : ℕ} (h : Numbered c)
    (hc : requestExecution c ctx outside imageId inputDigest callbackContract expirationSeconds =
      .ok c') : Numbered c' := by
  have hword : c.nextRequestId + 1 < UINT256 := by
    simp only [requestExecution, bind_eq_ok, checkedAdd_eq_ok] at hc
    obtain ⟨_, -, _, -, _, -, _, -, _, -, _, -, _, -, _, -, _, ⟨hword, -⟩, -⟩ := hc
    exact hword
  obtain ⟨-, req, -, hid, -, -, rfl⟩ := requestExecution_eq_ok hc
  refine ⟨hword, fun i hpos hi => ?_⟩
  change (Function.update c.requests c.nextRequestId req i).id = i
  by_cases heq : i = c.nextRequestId
  · rw [heq, Function.update_self, hid]
  · rw [Function.update_of_ne heq]
    exact h.id i hpos (by change i < c.nextRequestId + 1 at hi; omega)

theorem guarantees_numbers :
    Guarantees engineBody (fun s => Numbered s.storage) fun _ _ => True where
  refl := fun _ => trivial
  trans := fun _ _ _ _ _ => trivial
  safe := by
    intro tx s h
    refine Body.safe_after fun _ _ => ?_
    have hcredit : Numbered (credit s tx.context.value).storage := ⟨h.next, h.id⟩
    have hdispatch : (dispatch tx (credit s tx.context.value)).Safe _ _ _ :=
      aboutRequests_numbered.safe_dispatch hcredit fun _ _ _ _ _ hc =>
        requestExecution_numbered hcredit hc
    exact hdispatch.mono fun t ht => ⟨ht, trivial⟩

theorem construct_numbered {admin registry verifier feeRecipient : ℕ}
    (h : construct admin registry verifier feeRecipient = .ok s) : Numbered s.storage := by
  simp only [construct, bind_eq_ok, pure_eq_ok] at h
  obtain ⟨_, -, _, -, _, -, _, -, rfl⟩ := h
  refine ⟨show 1 < UINT256 by decide, fun i hpos hi => ?_⟩
  change i < 1 at hi
  omega

end Numbers

/-! ## The views -/

section Views

variable {s₀ s : EngineState} {admin registry verifier feeRecipient : ℕ}

theorem pairwise_pendingIds (c : EngineStorage) (timestamp : ℕ) :
    (pendingIds c timestamp).Pairwise (· < ·) :=
  List.Pairwise.filter _ List.pairwise_lt_range'

theorem mem_pendingIds (h : EngineInvariant s) (hnumbered : Numbered s.storage) {timestamp i : ℕ} :
    i ∈ pendingIds s.storage timestamp ↔
      (s.storage.requests i).id ≠ 0 ∧ isOpen timestamp (s.storage.requests i) = true := by
  rw [pendingIds, List.mem_filter, List.mem_range'_1]
  refine and_congr_left fun _ => ?_
  have hpos := h.next
  constructor
  · rintro ⟨hone, hlt⟩
    rw [hnumbered.id i hone (by omega)]
    exact Nat.ne_of_gt hone
  · intro hexists
    have hlt := h.lt_next hexists
    refine ⟨Nat.pos_of_ne_zero fun hzero => ?_, by omega⟩
    rw [(h.request i).fresh (.inl hzero)] at hexists
    exact hexists rfl

/-- In every reachable state of the engine and every state of the registry. The open requests of
the engine are listed in increasing order, and every page of them is returned. The pages of the
program lists are returned exactly when the page begins behind the list or its end is below
`2 ^ 256`. Pages one after another return the list once and in order. -/
theorem views_page_iff (hconstruct : construct admin registry verifier feeRecipient = .ok s₀)
    (hs : Reachable engineBody s₀ s) (c : ProgramStorage) (owner timestamp : ℕ) :
    (pendingIds s.storage timestamp).Pairwise (· < ·) ∧
    (∀ i, i ∈ pendingIds s.storage timestamp ↔
      (s.storage.requests i).id ≠ 0 ∧ isOpen timestamp (s.storage.requests i) = true) ∧
    (∀ offset limit,
      getPendingRequests s.storage timestamp offset limit =
        .ok (page (pendingIds s.storage timestamp) offset limit) ∧
      (getAllPrograms c offset limit = .ok (page c.programIds offset limit) ↔
        c.programIds.length ≤ offset ∨ offset + limit < UINT256) ∧
      (getOwnerPrograms c owner offset limit = .ok (page (c.ownerPrograms owner) offset limit) ↔
        (c.ownerPrograms owner).length ≤ offset ∨ offset + limit < UINT256)) ∧
    ∀ n limit,
      List.flatten <$> (List.range n).mapM (fun k =>
          getPendingRequests s.storage timestamp (k * limit) limit) =
        .ok ((pendingIds s.storage timestamp).take (n * limit)) ∧
      (n * limit < UINT256 →
        List.flatten <$> (List.range n).mapM (fun k => getAllPrograms c (k * limit) limit) =
          .ok (c.programIds.take (n * limit)) ∧
        List.flatten <$> (List.range n).mapM (fun k => getOwnerPrograms c owner (k * limit) limit) =
          .ok ((c.ownerPrograms owner).take (n * limit))) := by
  have h : EngineInvariant s := guarantees.reachable (construct_invariant hconstruct).1 hs
  have hnumbered : Numbered s.storage :=
    guarantees_numbers.reachable (construct_numbered hconstruct) hs
  refine ⟨pairwise_pendingIds _ _, fun i => mem_pendingIds h hnumbered, fun offset limit => ?_,
    fun n limit => ?_⟩
  · exact ⟨getPendingRequests_eq hnumbered.next offset limit, cutPage_eq_ok_iff, cutPage_eq_ok_iff⟩
  · exact ⟨flatten_mapM_page fun k _ => getPendingRequests_eq hnumbered.next _ _,
      fun hend => ⟨flatten_cutPage _ hend, flatten_cutPage _ hend⟩⟩

/-- A request that nobody has claimed, and the registry as it was deployed. -/
theorem one_open_request :
    ∃ s₀ s, construct 10 20 30 40 = .ok s₀ ∧ Reachable engineBody s₀ s ∧
      (s.storage.requests 1).id ≠ 0 ∧ pendingIds s.storage 1100 = [1] ∧
      getPendingRequests s.storage 1100 0 (UINT256 - 1) = .ok [1] := by
  have hsample : okAnd (construct 10 20 30 40) (fun s₀ =>
      okAnd ((engineBody sampleRequest s₀).eval fun _ => some ()) fun s₁ =>
        decide ((s₁.storage.requests 1).id ≠ 0 ∧ pendingIds s₁.storage 1100 = [1])) = true := by
    decide +kernel
  obtain ⟨s₀, hs₀, hrun⟩ := okAnd_eq_true.mp hsample
  obtain ⟨s₁, hs₁, hcheck⟩ := okAnd_eq_true.mp hrun
  obtain ⟨hexists, hids⟩ := of_decide_eq_true hcheck
  have hreachable : Reachable engineBody s₀ s₁ := .step _ .start (.of_eval hs₁)
  obtain ⟨-, -, hpages, -⟩ :=
    views_page_iff hs₀ hreachable (ProgramRegistry.construct 60).storage 61 1100
  refine ⟨s₀, s₁, hs₀, hreachable, hexists, hids, ?_⟩
  rw [(hpages 0 (UINT256 - 1)).1, hids]
  exact congrArg Except.ok (List.take_of_length_le (by decide))

/-- With two programs, all that follow the first one cannot be asked for. -/
theorem getAllPrograms_overflow :
    ∃ c₁ c₂ : ProgramStorage,
      ProgramRegistry.registerProgram (ProgramRegistry.construct 60).storage
        ⟨61, 0, 1000, 1, by decide⟩ 7 [1] [2] 3 = .ok c₁ ∧
      ProgramRegistry.registerProgram c₁ ⟨61, 0, 1000, 1, by decide⟩ 8 [1] [2] 3 = .ok c₂ ∧
      page c₂.programIds 1 (UINT256 - 1) = [8] ∧
      getAllPrograms c₂ 1 (UINT256 - 1) = .error .arithmetic ∧
      getOwnerPrograms c₂ 61 1 (UINT256 - 1) = .error .arithmetic := by
  have hsample : okAnd (ProgramRegistry.registerProgram (ProgramRegistry.construct 60).storage
      ⟨61, 0, 1000, 1, by decide⟩ 7 [1] [2] 3) (fun c₁ =>
        okAnd (ProgramRegistry.registerProgram c₁ ⟨61, 0, 1000, 1, by decide⟩ 8 [1] [2] 3)
          fun c₂ => decide (c₂.programIds = [7, 8] ∧ c₂.ownerPrograms 61 = [7, 8])) = true := by
    decide +kernel
  obtain ⟨c₁, hc₁, hrun⟩ := okAnd_eq_true.mp hsample
  obtain ⟨c₂, hc₂, hcheck⟩ := okAnd_eq_true.mp hrun
  obtain ⟨hids, howner⟩ := of_decide_eq_true hcheck
  have hpanic : cutPage [7, 8] 1 (UINT256 - 1) = .error .arithmetic := by
    rw [cutPage]
    decide +kernel
  refine ⟨c₁, c₂, hc₁, hc₂, ?_, ?_, ?_⟩
  · rw [hids]
    rfl
  · rw [getAllPrograms, hids, hpanic]
  · rw [getOwnerPrograms, howner, hpanic]

end Views

end WorldZk.PaginatedViews
