import Mathlib.Algebra.Order.Floor.Div
import Mathlib.Data.Finset.Card
import Mathlib.Data.Finset.Dedup
import WorldZk.SlidingWindows

/-!
# The admission of inference requests

`/infer` first asks a sliding-window rate limiter and then, for a request with a nonce and a
timestamp, the replay protection. The nonce registry is bounded and evicts the oldest nonce; a nonce
stays in it long enough because a timestamp is fresh for a bounded time only, and the limiter bounds
the requests in that time. Both read one clock, in nanoseconds.
-/

namespace WorldZk.ReplayProtection

open SlidingWindows (admitted)

def MAX_NONCE_ENTRIES : ℕ := 100000

/-- The nanoseconds of a second. -/
def NANOS : ℕ := 1000000000

/-! ## The nonce registry -/

/-- `set` is the hash map and `order` the queue; they hold the same nonces, each once. -/
structure NonceRegistry where
  set : Finset String
  order : List String
  maxEntries : ℕ
  nodup : order.Nodup
  set_eq : set = order.toFinset

namespace NonceRegistry

def new (maxEntries : ℕ) : NonceRegistry := ⟨∅, [], maxEntries, List.nodup_nil, rfl⟩

theorem mem_set {r : NonceRegistry} {nonce : String} : nonce ∈ r.set ↔ nonce ∈ r.order := by
  rw [r.set_eq, List.mem_toFinset]

theorem card_set (r : NonceRegistry) : r.set.card = r.order.length := by
  rw [r.set_eq, List.toFinset_card_of_nodup r.nodup]

private theorem erase_eq {oldest : String} {rest : List String} (h : (oldest :: rest).Nodup) :
    (oldest :: rest).toFinset.erase oldest = rest.toFinset := by
  rw [List.toFinset_cons, Finset.erase_insert]
  rw [List.mem_toFinset]
  exact (List.nodup_cons.mp h).1

/-- Remove the nonce at the front of the queue. -/
def evictOldest (r : NonceRegistry) : NonceRegistry :=
  match h : r.order with
  | [] => r
  | oldest :: rest =>
    { set := r.set.erase oldest
      order := rest
      maxEntries := r.maxEntries
      nodup := (List.nodup_cons.mp (h ▸ r.nodup)).2
      set_eq := by
        have hnodup := r.nodup
        rw [h] at hnodup
        rw [r.set_eq, h, erase_eq hnodup] }

theorem order_evictOldest (r : NonceRegistry) : r.evictOldest.order = r.order.tail := by
  unfold evictOldest
  split
  · next h => rw [h, List.tail_nil]
  · next h => exact (congrArg List.tail h).symm

theorem maxEntries_evictOldest (r : NonceRegistry) : r.evictOldest.maxEntries = r.maxEntries := by
  unfold evictOldest
  split <;> rfl

/-- Add a new nonce at the back. -/
def record (r : NonceRegistry) (nonce : String) (hnew : nonce ∉ r.order) : NonceRegistry where
  set := insert nonce r.set
  order := r.order ++ [nonce]
  maxEntries := r.maxEntries
  nodup := by
    rw [List.nodup_append']
    exact ⟨r.nodup, List.nodup_singleton nonce, by simpa using hnew⟩
  set_eq := by
    rw [r.set_eq, List.toFinset_append, List.toFinset_cons, List.toFinset_nil, Finset.union_comm]
    rfl

/-- The registry with room for one more nonce. -/
def makeRoom (r : NonceRegistry) : NonceRegistry :=
  if r.maxEntries ≤ r.set.card then r.evictOldest else r

theorem order_makeRoom (r : NonceRegistry) :
    r.makeRoom.order = if r.maxEntries ≤ r.order.length then r.order.tail else r.order := by
  rw [makeRoom, card_set]
  split
  · exact r.order_evictOldest
  · rfl

theorem maxEntries_makeRoom (r : NonceRegistry) : r.makeRoom.maxEntries = r.maxEntries := by
  rw [makeRoom]
  split
  · exact r.maxEntries_evictOldest
  · rfl

private theorem not_mem_makeRoom {r : NonceRegistry} {nonce : String} (h : nonce ∉ r.set) :
    nonce ∉ r.makeRoom.order := by
  rw [order_makeRoom]
  rw [mem_set] at h
  split
  · exact fun hmem => h (List.mem_of_mem_tail hmem)
  · exact h

/-- Whether the nonce is new, and the registry after the check. -/
def checkNonce (r : NonceRegistry) (nonce : String) : Bool × NonceRegistry :=
  if h : nonce ∈ r.set then (false, r) else (true, r.makeRoom.record nonce (not_mem_makeRoom h))

variable {r : NonceRegistry} {nonce : String}

theorem checkNonce_of_mem (h : nonce ∈ r.order) : r.checkNonce nonce = (false, r) :=
  dif_pos (mem_set.mpr h)

theorem checkNonce_of_not_mem (h : nonce ∉ r.order) : (r.checkNonce nonce).1 = true ∧
    (r.checkNonce nonce).2.maxEntries = r.maxEntries ∧
      (r.checkNonce nonce).2.order =
        (if r.maxEntries ≤ r.order.length then r.order.tail else r.order) ++ [nonce] := by
  rw [checkNonce, dif_neg (mt mem_set.mp h)]
  refine ⟨rfl, r.maxEntries_makeRoom, ?_⟩
  rw [← order_makeRoom]
  rfl

/-- The nonce is in the queue with at most `n` nonces after it. -/
def Held (r : NonceRegistry) (nonce : String) (n : ℕ) : Prop :=
  ∃ before after, r.order = before ++ nonce :: after ∧ after.length ≤ n

theorem Held.mem {n : ℕ} (h : r.Held nonce n) : nonce ∈ r.order := by
  obtain ⟨before, after, horder, -⟩ := h
  rw [horder]
  exact List.mem_append_right before List.mem_cons_self

theorem Held.mono {n m : ℕ} (h : r.Held nonce n) (hnm : n ≤ m) : r.Held nonce m := by
  obtain ⟨before, after, horder, hafter⟩ := h
  exact ⟨before, after, horder, hafter.trans hnm⟩

theorem held_checkNonce (h : (r.checkNonce nonce).1 = true) :
    (r.checkNonce nonce).2.Held nonce 0 := by
  have hnew : nonce ∉ r.order := by
    intro hmem
    rw [checkNonce_of_mem hmem] at h
    cases h
  obtain ⟨-, -, horder⟩ := checkNonce_of_not_mem hnew
  exact ⟨_, [], horder, le_rfl⟩

/-- A check of another nonce moves a held nonce by one place at most, and evicts it only when the
queue behind it is full. -/
theorem Held.checkNonce {n : ℕ} (h : r.Held nonce n) (hroom : n + 1 < r.maxEntries)
    (other : String) : (r.checkNonce other).2.Held nonce (n + 1) := by
  by_cases hmem : other ∈ r.order
  · rw [checkNonce_of_mem hmem]
    exact h.mono (Nat.le_succ n)
  · obtain ⟨before, after, horder, hafter⟩ := h
    obtain ⟨-, -, hnext⟩ := checkNonce_of_not_mem hmem
    rw [Held, hnext]
    split
    case isTrue hfull =>
      -- The queue is full, so it does not start with the held nonce.
      cases before with
      | nil =>
        rw [horder, List.nil_append, List.length_cons] at hfull
        omega
      | cons oldest before =>
        refine ⟨before, after ++ [other], ?_, ?_⟩
        · rw [horder]
          simp
        · rw [List.length_append, List.length_singleton]
          omega
    case isFalse =>
      refine ⟨before, after ++ [other], ?_, ?_⟩
      · rw [horder]
        simp
      · rw [List.length_append, List.length_singleton]
        omega

theorem maxEntries_checkNonce (r : NonceRegistry) (nonce : String) :
    (r.checkNonce nonce).2.maxEntries = r.maxEntries := by
  by_cases hmem : nonce ∈ r.order
  · rw [checkNonce_of_mem hmem]
  · exact (checkNonce_of_not_mem hmem).2.1

end NonceRegistry
/-! ## The checks of a request -/

inductive ReplayError
  | duplicateNonce
  | expiredTimestamp
  | invalidChainId
deriving DecidableEq, Repr

/-- The clock's seconds `now` and the timestamp are at most `maxAge` apart. -/
def checkTimestamp (now timestampSecs maxAge : ℕ) : Bool :=
  if timestampSecs < now ∧ maxAge < now - timestampSecs then false
  else if now < timestampSecs ∧ maxAge < timestampSecs - now then false
  else true

def checkChainId (requestChainId expected : ℕ) : Bool := requestChainId == expected

structure Protection where
  nonces : NonceRegistry
  maxRequestAgeSecs : ℕ
  expectedChainId : ℕ

def Protection.new (maxRequestAgeSecs expectedChainId : ℕ) : Protection :=
  ⟨.new MAX_NONCE_ENTRIES, maxRequestAgeSecs, expectedChainId⟩

/-- `ReplayProtection::validate_request`, with the protection after the call. -/
def Protection.validateRequest (p : Protection) (now : ℕ) (nonce : String)
    (timestampSecs chainId : ℕ) : Except ReplayError Unit × Protection :=
  if !checkChainId chainId p.expectedChainId then (.error .invalidChainId, p)
  else if !checkTimestamp now timestampSecs p.maxRequestAgeSecs then (.error .expiredTimestamp, p)
  else
    match p.nonces.checkNonce nonce with
    | (false, nonces) => (.error .duplicateNonce, { p with nonces := nonces })
    | (true, nonces) => (.ok (), { p with nonces := nonces })

structure RateLimiter where
  window : List ℕ
  maxRequestsPerMinute : ℕ

def RateLimiter.new (maxRequestsPerMinute : ℕ) : RateLimiter := ⟨[], maxRequestsPerMinute⟩

/-- The seconds to wait, from the oldest request in a full window. -/
def retryAfter (window : List ℕ) (now : ℕ) : ℕ :=
  match window with
  | oldest :: _ => max (60 - (now - oldest) / NANOS) 1
  | [] => 1

def RateLimiter.check (limiter : RateLimiter) (now : ℕ) : Except ℕ Unit × RateLimiter :=
  match SlidingWindows.check (60 * NANOS) limiter.maxRequestsPerMinute limiter.window now with
  | (true, window) => (.ok (), { limiter with window := window })
  | (false, window) => (.error (retryAfter window now), { limiter with window := window })

/-! ## Admission -/

structure InferRequest where
  chainId : Option ℕ
  nonce : Option String
  timestamp : Option ℕ

/-- A request with the clock at the rate limiter and at the replay protection. -/
structure Arrival where
  request : InferRequest
  checkedAt : ℕ
  validatedAt : ℕ

inductive Admission
  | rateLimited (retryAfterSecs : ℕ)
  | replayFailed (e : ReplayError)
  | validated
  /-- Without a nonce or without a timestamp the replay protection is not asked. -/
  | unchecked
deriving DecidableEq, Repr

/-- What the admission reads of the application state. -/
structure Gate where
  rateLimiter : RateLimiter
  replayProtection : Protection
  chainId : ℕ

def Gate.new (maxRequestAgeSecs maxRequestsPerMinute chainId : ℕ) : Gate :=
  ⟨.new maxRequestsPerMinute, .new maxRequestAgeSecs chainId, chainId⟩

/-- The admission part of `infer`. -/
def receive (g : Gate) (a : Arrival) : Admission × Gate :=
  match g.rateLimiter.check a.checkedAt with
  | (.error retryAfterSecs, limiter) => (.rateLimited retryAfterSecs, { g with rateLimiter := limiter })
  | (.ok (), limiter) =>
    match a.request.nonce, a.request.timestamp with
    | some nonce, some timestamp =>
      match g.replayProtection.validateRequest (a.validatedAt / NANOS) nonce timestamp
          (a.request.chainId.getD g.chainId) with
      | (.error e, p) => (.replayFailed e, { g with rateLimiter := limiter, replayProtection := p })
      | (.ok (), p) => (.validated, { g with rateLimiter := limiter, replayProtection := p })
    | _, _ => (.unchecked, { g with rateLimiter := limiter })

/-- The state after a run of requests. -/
def receiveAll (g : Gate) (arrivals : List Arrival) : Gate :=
  arrivals.foldl (fun g a => (receive g a).2) g

/-- The readings of the clock never decrease. -/
def Clocked (arrivals : List Arrival) : Prop :=
  (arrivals.flatMap fun a => [a.checkedAt, a.validatedAt]).Pairwise (· ≤ ·)

/-! ## What one request does -/

section OneRequest

variable {p : Protection} {g : Gate} {a : Arrival} {now timestampSecs chainId : ℕ} {nonce : String}

theorem validateRequest_of_error {e : ReplayError}
    (h : (p.validateRequest now nonce timestampSecs chainId).1 = .error e) :
    (p.validateRequest now nonce timestampSecs chainId).2 = p := by
  unfold Protection.validateRequest at h ⊢
  split
  · rfl
  · split
    · rfl
    · by_cases hmem : nonce ∈ p.nonces.order
      · rw [NonceRegistry.checkNonce_of_mem hmem]
      · have hnew := (NonceRegistry.checkNonce_of_not_mem hmem).1
        rw [if_neg ‹_›, if_neg ‹_›] at h
        split at h
        · next hcheck =>
          rw [hcheck] at hnew
          cases hnew
        · cases h

theorem validateRequest_eq_ok
    (h : (p.validateRequest now nonce timestampSecs chainId).1 = .ok ()) :
    checkTimestamp now timestampSecs p.maxRequestAgeSecs = true ∧
      (p.nonces.checkNonce nonce).1 = true ∧
        (p.validateRequest now nonce timestampSecs chainId).2 =
          { p with nonces := (p.nonces.checkNonce nonce).2 } := by
  unfold Protection.validateRequest at h ⊢
  split at h
  · cases h
  · next hchain =>
    split at h
    · cases h
    · next htime =>
      split at h
      · cases h
      · next hcheck =>
        rw [if_neg hchain, if_neg htime, hcheck]
        exact ⟨by simpa using htime, rfl, rfl⟩

theorem le_add_of_checkTimestamp {maxAge : ℕ}
    (h : checkTimestamp now timestampSecs maxAge = true) :
    now ≤ timestampSecs + maxAge ∧ timestampSecs ≤ now + maxAge := by
  unfold checkTimestamp at h
  split at h
  · cases h
  · split at h
    · cases h
    · omega

/-- Whether the limiter admits a request, and the times that it remembers then. -/
def limiterStep (g : Gate) (now : ℕ) : Bool × List ℕ :=
  SlidingWindows.check (60 * NANOS) g.rateLimiter.maxRequestsPerMinute g.rateLimiter.window now

/-- The state with another window in the limiter. -/
def withWindow (g : Gate) (window : List ℕ) : Gate :=
  { g with rateLimiter := { g.rateLimiter with window := window } }

/-- The state with another nonce registry. -/
def withNonces (g : Gate) (nonces : NonceRegistry) : Gate :=
  { g with replayProtection := { g.replayProtection with nonces := nonces } }

/-- What a request can do. -/
inductive Effect (g : Gate) (a : Arrival) : Admission × Gate → Prop
  | limited (retryAfterSecs : ℕ) (limit : (limiterStep g a.checkedAt).1 = false) :
      Effect g a (.rateLimited retryAfterSecs, withWindow g (limiterStep g a.checkedAt).2)
  | passed (outcome : Admission) (limit : (limiterStep g a.checkedAt).1 = true)
      (unvalidated : outcome ≠ .validated) :
      Effect g a (outcome, withWindow g (limiterStep g a.checkedAt).2)
  | validated (nonce : String) (timestamp : ℕ) (limit : (limiterStep g a.checkedAt).1 = true)
      (hasNonce : a.request.nonce = some nonce) (hasTimestamp : a.request.timestamp = some timestamp)
      (fresh : checkTimestamp (a.validatedAt / NANOS) timestamp
        g.replayProtection.maxRequestAgeSecs = true)
      (new : (g.replayProtection.nonces.checkNonce nonce).1 = true) :
      Effect g a (.validated, withNonces (withWindow g (limiterStep g a.checkedAt).2)
        (g.replayProtection.nonces.checkNonce nonce).2)

private theorem check_limiter (g : Gate) (now : ℕ) :
    (g.rateLimiter.check now).2 = (withWindow g (limiterStep g now).2).rateLimiter ∧
      ((g.rateLimiter.check now).1 = .ok () ↔ (limiterStep g now).1 = true) := by
  unfold RateLimiter.check
  change _ ∧ (_ ↔ (SlidingWindows.check _ _ _ _).1 = true)
  split <;> next h => simp [limiterStep, withWindow, h]

theorem receive_effect (g : Gate) (a : Arrival) : Effect g a (receive g a) := by
  obtain ⟨hwindow, hlimit⟩ := check_limiter g a.checkedAt
  rw [receive]
  split
  · next retryAfterSecs limiter hcheck =>
    rw [hcheck] at hwindow hlimit
    obtain rfl := hwindow
    refine .limited retryAfterSecs ?_
    rw [← Bool.not_eq_true]
    exact fun h => by cases hlimit.mpr h
  · next limiter hcheck =>
    rw [hcheck] at hwindow hlimit
    obtain rfl := hwindow
    have hpassed := hlimit.mp rfl
    split
    · next nonce timestamp hnonce htimestamp =>
      split
      · next e p hvalidate =>
        have hsame := validateRequest_of_error (congrArg Prod.fst hvalidate)
        rw [hvalidate] at hsame
        obtain rfl := hsame
        exact .passed (.replayFailed e) hpassed (by simp)
      · next p hvalidate =>
        obtain ⟨hfresh, hnew, hnext⟩ := validateRequest_eq_ok (congrArg Prod.fst hvalidate)
        rw [hvalidate] at hnext
        obtain rfl := hnext
        exact .validated nonce timestamp hpassed hnonce htimestamp hfresh hnew
    · exact .passed .unchecked hpassed (by simp)

theorem rateLimiter_receive (g : Gate) (a : Arrival) :
    (receive g a).2.rateLimiter = (withWindow g (limiterStep g a.checkedAt).2).rateLimiter := by
  have h := receive_effect g a
  generalize receive g a = x at h ⊢
  cases h <;> rfl

theorem maxRequestAgeSecs_receive (g : Gate) (a : Arrival) :
    (receive g a).2.replayProtection.maxRequestAgeSecs = g.replayProtection.maxRequestAgeSecs := by
  have h := receive_effect g a
  generalize receive g a = x at h ⊢
  cases h <;> rfl

theorem maxEntries_receive (g : Gate) (a : Arrival) :
    (receive g a).2.replayProtection.nonces.maxEntries = g.replayProtection.nonces.maxEntries := by
  have h := receive_effect g a
  generalize receive g a = x at h ⊢
  cases h with
  | limited _ _ => rfl
  | passed _ _ _ => rfl
  | validated nonce _ _ _ _ _ _ => exact NonceRegistry.maxEntries_checkNonce _ nonce

/-- A validated request was admitted by the limiter, is fresh and has a new nonce. -/
theorem receive_validated (h : (receive g a).1 = .validated) :
    (limiterStep g a.checkedAt).1 = true ∧
      ∃ nonce timestamp, a.request.nonce = some nonce ∧ a.request.timestamp = some timestamp ∧
        checkTimestamp (a.validatedAt / NANOS) timestamp
          g.replayProtection.maxRequestAgeSecs = true ∧
        (g.replayProtection.nonces.checkNonce nonce).1 = true ∧
        (receive g a).2.replayProtection.nonces =
          (g.replayProtection.nonces.checkNonce nonce).2 := by
  have heffect := receive_effect g a
  generalize receive g a = x at heffect h ⊢
  cases heffect with
  | limited _ _ => cases h
  | passed outcome _ unvalidated => exact absurd h unvalidated
  | validated nonce timestamp limit hasNonce hasTimestamp fresh new =>
    exact ⟨limit, nonce, timestamp, hasNonce, hasTimestamp, fresh, new, rfl⟩

end OneRequest

/-! ## Runs -/

variable {g : Gate} {nonce : String} {n : ℕ}

/-- The times at which the limiter admits the requests. -/
def admittedTimes (g : Gate) (arrivals : List Arrival) : List ℕ :=
  admitted (60 * NANOS) g.rateLimiter.maxRequestsPerMinute g.rateLimiter.window
    (arrivals.map Arrival.checkedAt)

theorem admittedTimes_cons (g : Gate) (a : Arrival) (arrivals : List Arrival) :
    admittedTimes g (a :: arrivals) =
      if (limiterStep g a.checkedAt).1 then a.checkedAt :: admittedTimes (receive g a).2 arrivals
      else admittedTimes (receive g a).2 arrivals := by
  rw [admittedTimes, List.map_cons, admitted, admittedTimes, rateLimiter_receive]
  rfl

theorem admittedTimes_append (g : Gate) (arrivals arrivals' : List Arrival) :
    admittedTimes g (arrivals ++ arrivals') =
      admittedTimes g arrivals ++ admittedTimes (receiveAll g arrivals) arrivals' := by
  induction arrivals generalizing g with
  | nil => rfl
  | cons a arrivals ih =>
    rw [List.cons_append, admittedTimes_cons, admittedTimes_cons, ih]
    split <;> rfl

theorem maxRequestAgeSecs_receiveAll (g : Gate) (arrivals : List Arrival) :
    (receiveAll g arrivals).replayProtection.maxRequestAgeSecs =
      g.replayProtection.maxRequestAgeSecs := by
  induction arrivals generalizing g with
  | nil => rfl
  | cons a arrivals ih => exact (ih _).trans (maxRequestAgeSecs_receive g a)

theorem maxEntries_receiveAll (g : Gate) (arrivals : List Arrival) :
    (receiveAll g arrivals).replayProtection.nonces.maxEntries =
      g.replayProtection.nonces.maxEntries := by
  induction arrivals generalizing g with
  | nil => rfl
  | cons a arrivals ih => exact (ih _).trans (maxEntries_receive g a)

/-- A request that the limiter admits moves a held nonce by one place at most. -/
theorem held_receive (a : Arrival) (h : g.replayProtection.nonces.Held nonce n)
    (hroom : n + 1 < g.replayProtection.nonces.maxEntries) :
    (receive g a).2.replayProtection.nonces.Held nonce (n + 1) := by
  have heffect := receive_effect g a
  generalize receive g a = x at heffect ⊢
  cases heffect with
  | limited _ _ => exact h.mono (Nat.le_succ n)
  | passed _ _ _ => exact h.mono (Nat.le_succ n)
  | validated other _ _ _ _ _ _ => exact h.checkNonce hroom other

theorem nonces_receive_of_limited (a : Arrival) (hlimit : (limiterStep g a.checkedAt).1 = false) :
    (receive g a).2.replayProtection.nonces = g.replayProtection.nonces := by
  have heffect := receive_effect g a
  generalize receive g a = x at heffect ⊢
  cases heffect with
  | limited _ _ => rfl
  | passed _ _ _ => rfl
  | validated _ _ limit _ _ _ _ =>
    rw [hlimit] at limit
    cases limit

/-- A nonce stays in the registry while the limiter admits fewer requests than there is room for. -/
theorem held_receiveAll (arrivals : List Arrival) (h : g.replayProtection.nonces.Held nonce n)
    (hroom : n + (admittedTimes g arrivals).length < g.replayProtection.nonces.maxEntries) :
    nonce ∈ (receiveAll g arrivals).replayProtection.nonces.order := by
  induction arrivals generalizing g n with
  | nil => exact h.mem
  | cons a arrivals ih =>
    rw [admittedTimes_cons] at hroom
    cases hlimit : (limiterStep g a.checkedAt).1 with
    | true =>
      rw [hlimit, if_pos rfl, List.length_cons] at hroom
      refine ih (held_receive a h (by omega)) ?_
      change n + 1 + (admittedTimes (receive g a).2 arrivals).length < _
      rw [maxEntries_receive]
      omega
    | false =>
      rw [hlimit, if_neg Bool.false_ne_true] at hroom
      have hnonces := nonces_receive_of_limited a hlimit
      refine @ih _ n ?_ ?_
      · rw [hnonces]
        exact h
      · rw [hnonces]
        exact hroom

/-! ### The clock -/

theorem checkedAt_sublist (arrivals : List Arrival) :
    (arrivals.map Arrival.checkedAt).Sublist
      (arrivals.flatMap fun a => [a.checkedAt, a.validatedAt]) := by
  induction arrivals with
  | nil => exact List.Sublist.refl _
  | cons a arrivals ih =>
    rw [List.map_cons, List.flatMap_cons]
    exact (ih.cons a.validatedAt).cons_cons a.checkedAt

/-- After a request the limiter is asked between its last reading and that of the request to come. -/
theorem Clocked.between {before between : List Arrival} {a b : Arrival}
    (h : Clocked (before ++ a :: (between ++ [b]))) :
    ∀ time ∈ (between ++ [b]).map Arrival.checkedAt, a.validatedAt ≤ time ∧ time ≤ b.validatedAt := by
  rw [Clocked, List.flatMap_append, List.flatMap_cons, List.pairwise_append] at h
  obtain ⟨-, h, -⟩ := h
  rw [List.cons_append, List.cons_append, List.nil_append, List.pairwise_cons,
    List.pairwise_cons] at h
  obtain ⟨-, hafter, hrest⟩ := h
  intro time htime
  refine ⟨hafter time ((checkedAt_sublist _).subset htime), ?_⟩
  rw [List.flatMap_append, List.pairwise_append] at hrest
  obtain ⟨-, hlast, hcross⟩ := hrest
  rw [List.map_append, List.mem_append] at htime
  rcases htime with htime | htime
  · exact hcross time ((checkedAt_sublist between).subset htime) b.validatedAt (by simp)
  · obtain rfl := List.mem_singleton.mp htime
    simpa using hlast

/-- The limiter of a fresh state admits at most `k` times its limit in `k` minutes. -/
theorem countP_admittedTimes_le (maxAge limit chainId : ℕ) {arrivals : List Arrival}
    (h : Clocked arrivals) (x k : ℕ) :
    (admittedTimes (Gate.new maxAge limit chainId) arrivals).countP
      (fun t => decide (x ≤ t ∧ t < x + k * (60 * NANOS))) ≤ k * limit := by
  refine SlidingWindows.countP_interval_le ?_ x k
  have hsorted := h.sublist (checkedAt_sublist arrivals)
  exact SlidingWindows.counts_nil.admitted
    (List.pairwise_cons.mpr ⟨fun _ _ => Nat.zero_le _, hsorted⟩)

theorem lt_of_fresh {first second timestamp maxAge : ℕ}
    (hfirst : checkTimestamp (first / NANOS) timestamp maxAge = true)
    (hsecond : checkTimestamp (second / NANOS) timestamp maxAge = true) :
    second < first + ((2 * maxAge + 1) ⌈/⌉ 60) * (60 * NANOS) := by
  have h₁ := (le_add_of_checkTimestamp hfirst).2
  have h₂ := (le_add_of_checkTimestamp hsecond).1
  have hceil : 2 * maxAge + 1 ≤ ((2 * maxAge + 1) ⌈/⌉ 60) * 60 := by
    rw [Nat.ceilDiv_eq_add_pred_div]
    omega
  have hnanos : (2 * maxAge + 1) * NANOS ≤ ((2 * maxAge + 1) ⌈/⌉ 60) * (60 * NANOS) := by
    rw [← mul_assoc]
    exact Nat.mul_le_mul_right _ hceil
  rw [NANOS] at *
  omega

/-- With the limits in proportion, no two validated requests have one nonce and one timestamp. -/
theorem not_validated_twice {maxAge limit chainId : ℕ}
    (hlimits : ((2 * maxAge + 1) ⌈/⌉ 60) * limit ≤ MAX_NONCE_ENTRIES) {before between : List Arrival}
    {a b : Arrival} (hclock : Clocked (before ++ a :: (between ++ [b])))
    (hnonce : a.request.nonce = b.request.nonce)
    (htimestamp : a.request.timestamp = b.request.timestamp)
    (hfirst : (receive (receiveAll (Gate.new maxAge limit chainId) before) a).1 = .validated) :
    (receive (receiveAll (Gate.new maxAge limit chainId) (before ++ a :: between)) b).1 ≠
      .validated := by
  intro hsecond
  -- The state after the first request, and the one in which the second arrives.
  obtain ⟨hstart, nonce, timestamp, hn, ht, hfresh, hnew, hnonces⟩ := receive_validated hfirst
  obtain ⟨hlimit, nonce', timestamp', hn', ht', hfresh', hnew', -⟩ := receive_validated hsecond
  obtain rfl : nonce = nonce' := Option.some.inj (by rw [← hn, ← hn', hnonce])
  obtain rfl : timestamp = timestamp' := Option.some.inj (by rw [← ht, ← ht', htimestamp])
  rw [maxRequestAgeSecs_receiveAll] at hfresh hfresh'
  have hrun : receiveAll (Gate.new maxAge limit chainId) (before ++ a :: between) =
      receiveAll (receive (receiveAll (Gate.new maxAge limit chainId) before) a).2 between := by
    rw [receiveAll, List.foldl_append]
    rfl
  have hend := lt_of_fresh hfresh hfresh'
  rw [hrun] at hlimit hnew'
  obtain ⟨g₁, hg₁⟩ : ∃ g, receiveAll (Gate.new maxAge limit chainId) before = g := ⟨_, rfl⟩
  rw [hg₁] at hstart hnew hnonces hlimit hnew'
  -- The limiter admits the requests after the first one at times of one interval.
  have hlength : (admittedTimes (receive g₁ a).2 (between ++ [b])).length ≤ MAX_NONCE_ENTRIES := by
    refine le_trans ?_ hlimits
    have htotal := countP_admittedTimes_le maxAge limit chainId hclock a.validatedAt
      ((2 * maxAge + 1) ⌈/⌉ 60)
    rw [admittedTimes_append, hg₁, admittedTimes_cons, hstart, if_pos rfl, List.countP_append,
      List.countP_cons] at htotal
    have hall : (admittedTimes (receive g₁ a).2 (between ++ [b])).countP (fun t => decide
        (a.validatedAt ≤ t ∧ t < a.validatedAt + ((2 * maxAge + 1) ⌈/⌉ 60) * (60 * NANOS))) =
        (admittedTimes (receive g₁ a).2 (between ++ [b])).length := by
      rw [List.countP_eq_length]
      intro t hmem
      obtain ⟨hle, hge⟩ := hclock.between t
        ((SlidingWindows.admitted_sublist _ _).subset hmem)
      simp only [decide_eq_true_eq]
      exact ⟨hle, hge.trans_lt hend⟩
    omega
  have hheld : (receive g₁ a).2.replayProtection.nonces.Held nonce 0 := by
    rw [hnonces]
    exact NonceRegistry.held_checkNonce hnew
  have hmem : nonce ∈ (receiveAll (receive g₁ a).2 between).replayProtection.nonces.order := by
    refine held_receiveAll between hheld ?_
    rw [admittedTimes_append, List.length_append, admittedTimes_cons, hlimit, if_pos rfl,
      List.length_cons] at hlength
    have hmax : (receive g₁ a).2.replayProtection.nonces.maxEntries = MAX_NONCE_ENTRIES := by
      rw [maxEntries_receive, ← hg₁, maxEntries_receiveAll]
      rfl
    rw [hmax]
    omega
  rw [NonceRegistry.checkNonce_of_mem hmem] at hnew'
  cases hnew'

/-- The request of a client, and the same request again a minute later. -/
def sampleArrival (time : ℕ) : Arrival := ⟨⟨none, some "n", some 100⟩, time * NANOS, time * NANOS⟩

end WorldZk.ReplayProtection
