import Mathlib.Data.List.Induction
import IChat.Auth.RateLimit
import IChat.General.SlidingWindow
import IChat.General.StepSystem

/-!
# The exactness of the sliding window

`_SLIDING_WINDOW_LUA` with the members of the sorted set, and its runs from an empty key. Scores
are moments of the clock of the calling process, and the expiry of the key is a moment of the clock
of Redis; nothing ties one to the other. As long as no call comes to an expired key while the last
admitted call still counts (`Keeps`), the key holds the log of the admitted calls as far as it still
counts (`Mirrors`), and the limiter is exact; the first call that does is admitted too early.
-/

namespace IChat.Auth

open SlidingWindow StepSystem

/-- A sorted set with the scores of its members, and when the key expires. -/
structure SortedSet where
  members : List (String × ℕ)
  expiresAt : ℕ
  deriving DecidableEq, Repr

/-- The members that a key was left with. -/
def SortedSet.stored : Option SortedSet → List (String × ℕ)
  | none => []
  | some set => set.members

/-- The members of a key that may have expired. -/
def SortedSet.live (clock : ℕ) : Option SortedSet → List (String × ℕ)
  | none => []
  | some set => if KeyExpired clock set.expiresAt then [] else set.members

/-- `ZREMRANGEBYSCORE key 0 max`. -/
def zremrangebyscore (max : ℤ) (members : List (String × ℕ)) : List (String × ℕ) :=
  members.filter fun m => ¬((m.2 : ℤ) ≤ max)

/-- `ZADD key score member`. -/
def zadd (score : ℕ) (member : String) (members : List (String × ℕ)) : List (String × ℕ) :=
  if members.any fun m => m.1 = member then
    members.map fun m => if m.1 = member then (member, score) else m
  else members ++ [(member, score)]

/-- `_SLIDING_WINDOW_LUA`, run when the clock of Redis shows `clock`. A key without members does
not exist, and `PEXPIRE key 0` deletes it. -/
def slidingWindowScript (clock now window limit : ℕ) (member : String) (key : Option SortedSet) :
    Option SortedSet × RateLimitResult :=
  let members := zremrangebyscore ((now : ℤ) - window) (SortedSet.live clock key)
  if members.length < limit then
    (if window = 0 then none else some ⟨zadd now member members, clock + window⟩, ⟨true, 0⟩)
  else
    let retry :=
      match (members.map Prod.snd).min? with
      | some earliest => max 1 ((earliest + window - now + 999) / 1000)
      | none => 1
    (if members = [] then none else key.map fun set => { set with members }, ⟨false, retry⟩)

/-- A call of the script. -/
structure WindowCall where
  /-- The clock of Redis when it runs the script. -/
  clock : ℕ
  /-- `now_ms`, which the process read from its own clock. -/
  now : ℕ
  member : String
  deriving DecidableEq, Repr

/-- The key, and the calls that were admitted so far. -/
structure WindowRun where
  key : Option SortedSet
  admitted : List WindowCall

/-- The answer to a call. -/
def WindowRun.reply (window limit : ℕ) (run : WindowRun) (call : WindowCall) : RateLimitResult :=
  (slidingWindowScript call.clock call.now window limit call.member run.key).2

def WindowRun.advance (window limit : ℕ) (run : WindowRun) (call : WindowCall) : WindowRun :=
  ⟨(slidingWindowScript call.clock call.now window limit call.member run.key).1,
    if (run.reply window limit call).allowed then run.admitted ++ [call] else run.admitted⟩

/-- The run of some calls from an empty key. -/
def windowRun (window limit : ℕ) (calls : List WindowCall) : WindowRun :=
  calls.foldl (WindowRun.advance window limit) ⟨none, []⟩

/-- The run as a step system, in which every call is possible. -/
def windowStep (window limit : ℕ) (run : WindowRun) (call : WindowCall) : Option WindowRun :=
  some (run.advance window limit call)

/-- A call does not find the key expired, by the clock of Redis, while the last admitted call still
counts, by the clock of the process. -/
def Keeps (window : ℕ) (run : WindowRun) (call : WindowCall) : Prop :=
  ∀ last ∈ run.admitted.getLast?, KeyExpired call.clock (last.clock + window) →
    last.now + window ≤ call.now

instance (window : ℕ) (run : WindowRun) (call : WindowCall) : Decidable (Keeps window run call) :=
  inferInstanceAs (Decidable (∀ last ∈ run.admitted.getLast?, _ → _))

/-- What the limiter promises over the calls of a run. -/
structure WindowExact (window limit : ℕ) (calls : List WindowCall) : Prop where
  /-- No half-open interval of the window's length holds more than `limit` admitted calls. -/
  bounded : ∀ start, ((windowRun window limit calls).admitted.filter fun c =>
    start ≤ c.now ∧ c.now < start + window).length ≤ limit
  /-- A call that finds the key expired loses nothing that would count. -/
  expiry : ∀ before call after, calls = before ++ call :: after →
    ∀ set, (windowRun window limit before).key = some set → KeyExpired call.clock set.expiresAt →
      ∀ m ∈ set.members, m.2 + window ≤ call.now
  /-- A call is refused only if the window before it holds `limit` admitted calls. -/
  refused : ∀ before call after, calls = before ++ call :: after →
    ((windowRun window limit before).reply window limit call).allowed = false →
    limit ≤ ((windowRun window limit before).admitted.filter fun c =>
      call.now < c.now + window ∧ c.now ≤ call.now).length
  /-- A refused call that is made again after the seconds it was told, with no other call admitted
  meanwhile, is admitted. -/
  retried : ∀ before call between again after,
    calls = before ++ call :: between ++ again :: after →
    ((windowRun window limit before).reply window limit call).allowed = false →
    (windowRun window limit (before ++ call :: between)).admitted =
      (windowRun window limit before).admitted →
    call.now + 1000 * ((windowRun window limit before).reply window limit call).retryAfterSeconds ≤
      again.now →
    ((windowRun window limit (before ++ call :: between)).reply window limit again).allowed = true

section runs

variable {window limit last clock now : ℕ} {run : WindowRun} {call : WindowCall}
variable {key : Option SortedSet} {calls before between after : List WindowCall}

theorem zremrangebyscore_scores (members : List (String × ℕ)) :
    (zremrangebyscore ((now : ℤ) - window) members).map Prod.snd =
      counting window now (members.map Prod.snd) := by
  rw [zremrangebyscore, counting, List.filter_map]
  refine congrArg (List.map Prod.snd) (List.filter_congr fun m _ => ?_)
  rw [Function.comp_apply, decide_eq_decide]
  omega

/-- A new member is added behind the others. -/
theorem zadd_of_notMem {score : ℕ} {member : String} {members : List (String × ℕ)}
    (h : ∀ m ∈ members, m.1 ≠ member) :
    zadd score member members = members ++ [(member, score)] := by
  rw [zadd, if_neg]
  rw [List.any_eq_true]
  rintro ⟨m, hm, heq⟩
  exact h m hm (of_decide_eq_true heq)

theorem mem_stored_of_mem_live {m : String × ℕ} (h : m ∈ SortedSet.live clock key) :
    m ∈ SortedSet.stored key := by
  cases key with
  | none => exact h
  | some =>
    rw [SortedSet.live] at h
    split_ifs at h
    · exact absurd h List.not_mem_nil
    · exact h

/-! ### One call -/

/-- A call is admitted exactly if there is room. -/
theorem allowed_iff {member : String} :
    (slidingWindowScript clock now window limit member key).2.allowed = true ↔
      (counting window now ((SortedSet.live clock key).map Prod.snd)).length < limit := by
  rw [← zremrangebyscore_scores, List.length_map, slidingWindowScript]
  dsimp only
  by_cases hroom : (zremrangebyscore ((now : ℤ) - window) (SortedSet.live clock key)).length < limit
  · rw [if_pos hroom]
    exact iff_of_true rfl hroom
  · rw [if_neg hroom]
    exact iff_of_false Bool.false_ne_true hroom

/-- The key after an admitted call. -/
theorem slidingWindowScript_of_lt {member : String}
    (h : (counting window now ((SortedSet.live clock key).map Prod.snd)).length < limit) :
    (slidingWindowScript clock now window limit member key).1 =
      if window = 0 then none
      else some ⟨zadd now member
        (zremrangebyscore ((now : ℤ) - window) (SortedSet.live clock key)), clock + window⟩ := by
  rw [← zremrangebyscore_scores, List.length_map] at h
  rw [slidingWindowScript]
  exact congrArg Prod.fst (if_pos h)

/-- The key after a refused call. -/
theorem slidingWindowScript_of_not_lt {member : String}
    (h : ¬(counting window now ((SortedSet.live clock key).map Prod.snd)).length < limit) :
    (slidingWindowScript clock now window limit member key).1 =
      if zremrangebyscore ((now : ℤ) - window) (SortedSet.live clock key) = [] then none
      else key.map fun set =>
        { set with
          members := zremrangebyscore ((now : ℤ) - window) (SortedSet.live clock key) } := by
  rw [← zremrangebyscore_scores, List.length_map] at h
  rw [slidingWindowScript]
  dsimp only
  rw [if_neg h]

/-- A refused call leaves the members that count. -/
theorem stored_of_not_lt (member : String)
    (h : ¬(counting window now ((SortedSet.live clock key).map Prod.snd)).length < limit) :
    SortedSet.stored (slidingWindowScript clock now window limit member key).1 =
      zremrangebyscore ((now : ℤ) - window) (SortedSet.live clock key) := by
  rw [slidingWindowScript_of_not_lt h]
  split_ifs with hnil
  · exact hnil.symm
  · cases key with
    | none => exact absurd rfl hnil
    | some => rfl

/-! ### What the key holds -/

/-- What the key holds after some calls, the last of them at a moment of the process. -/
structure Mirrors (window limit last : ℕ) (run : WindowRun) : Prop where
  counts : ∀ now, last ≤ now → counting window now ((SortedSet.stored run.key).map Prod.snd) =
    counting window now (run.admitted.map WindowCall.now)
  expires : ∀ set, run.key = some set → ∃ c ∈ run.admitted.getLast?,
    set.expiresAt = c.clock + window ∧ ∀ m ∈ set.members, m.2 ≤ c.now
  members : ∀ m ∈ SortedSet.stored run.key, m.1 ∈ run.admitted.map WindowCall.member
  past : ∀ c ∈ run.admitted, c.now ≤ last
  log : Admitted window limit (run.admitted.map WindowCall.now)

theorem mirrors_nil (window limit last : ℕ) : Mirrors window limit last ⟨none, []⟩ where
  counts _ _ := rfl
  expires _ h := nomatch h
  members _ h := absurd h List.not_mem_nil
  past _ h := absurd h List.not_mem_nil
  log := .nil

theorem Mirrors.mono {last' : ℕ} (h : Mirrors window limit last run) (hlast : last ≤ last') :
    Mirrors window limit last' run :=
  ⟨fun now hnow => h.counts now (hlast.trans hnow), h.expires, h.members,
    fun c hc => (h.past c hc).trans hlast, h.log⟩

/-- What a call that keeps the log counts is what of the log still counts. -/
theorem Mirrors.counts_live (h : Mirrors window limit last run) (hclock : last ≤ call.now)
    (hkeeps : Keeps window run call) :
    counting window call.now ((SortedSet.live call.clock run.key).map Prod.snd) =
      counting window call.now (run.admitted.map WindowCall.now) := by
  rw [← h.counts call.now hclock]
  cases hkey : run.key with
  | none => rfl
  | some set =>
    rw [SortedSet.live, SortedSet.stored]
    split_ifs with hexpired
    · obtain ⟨c, hc, hexpires, hscores⟩ := h.expires set hkey
      have hold := hkeeps c hc (hexpires ▸ hexpired)
      refine (counting_eq_nil fun t ht => ?_).symm
      obtain ⟨m, hm, rfl⟩ := List.mem_map.mp ht
      exact (Nat.add_le_add_right (hscores m hm) window).trans hold
    · rfl

theorem Mirrors.advance_of_lt (h : Mirrors window limit last run) (hclock : last ≤ call.now)
    (hkeeps : Keeps window run call) (hfresh : call.member ∉ run.admitted.map WindowCall.member)
    (hroom : (counting window call.now (run.admitted.map WindowCall.now)).length < limit) :
    Mirrors window limit call.now (run.advance window limit call) := by
  have hroom' := hroom
  rw [← h.counts_live hclock hkeeps] at hroom'
  have hallowed : (run.reply window limit call).allowed = true := allowed_iff.mpr hroom'
  rw [WindowRun.advance, slidingWindowScript_of_lt hroom', if_pos hallowed]
  have hleft : ∀ m ∈ zremrangebyscore ((call.now : ℤ) - window) (SortedSet.live call.clock run.key),
      m ∈ SortedSet.stored run.key := fun m hm =>
    mem_stored_of_mem_live (List.mem_of_mem_filter hm)
  have hscores := @zremrangebyscore_scores window call.now
    (SortedSet.live call.clock run.key)
  rw [h.counts_live hclock hkeeps] at hscores
  generalize zremrangebyscore ((call.now : ℤ) - window) (SortedSet.live call.clock run.key) = left
    at hleft hscores
  have hnew : ∀ m ∈ left, m.1 ≠ call.member := by
    rintro m hm heq
    exact hfresh (heq ▸ h.members m (hleft m hm))
  rw [zadd_of_notMem hnew]
  have hpast : ∀ t ∈ run.admitted.map WindowCall.now, t ≤ call.now := by
    intro t ht
    obtain ⟨c, hc, rfl⟩ := List.mem_map.mp ht
    exact (h.past c hc).trans hclock
  have hpast' : ∀ t ∈ (run.admitted ++ [call]).map WindowCall.now, t ≤ call.now := by
    intro t ht
    rw [List.map_append] at ht
    rcases List.mem_append.mp ht with ht | ht
    · exact hpast t ht
    · rw [List.mem_singleton.mp ht]
  refine ⟨fun now hnow => ?_, fun set hset => ⟨call, List.getLast?_concat, ?_⟩, fun m hm => ?_,
    fun c hc => hpast' c.now (List.mem_map_of_mem hc), ?_⟩
  · split_ifs with hzero
    · -- nothing counts in an empty window
      refine (counting_eq_nil fun t ht => ?_).symm
      rw [hzero, Nat.add_zero]
      exact (hpast' t ht).trans hnow
    · rw [SortedSet.stored, List.map_append, List.map_append, counting_append, counting_append,
        hscores, counting_counting hnow]
      rfl
  · split_ifs at hset
    cases hset
    refine ⟨rfl, fun m hm => ?_⟩
    rcases List.mem_append.mp hm with hm | hm
    · have hscore : m.2 ∈ left.map Prod.snd := List.mem_map_of_mem hm
      rw [hscores] at hscore
      exact hpast m.2 (mem_counting.mp hscore).1
    · rw [List.mem_singleton.mp hm]
  · rw [List.map_append, List.mem_append]
    split_ifs at hm
    · exact absurd hm List.not_mem_nil
    · rcases List.mem_append.mp hm with hm | hm
      · exact .inl (h.members m (hleft m hm))
      · rw [List.mem_singleton.mp hm]
        exact .inr List.mem_cons_self
  · rw [List.map_append]
    exact .snoc h.log hpast hroom

theorem Mirrors.advance_of_not_lt (h : Mirrors window limit last run) (hclock : last ≤ call.now)
    (hkeeps : Keeps window run call)
    (hroom : ¬(counting window call.now (run.admitted.map WindowCall.now)).length < limit) :
    Mirrors window limit call.now (run.advance window limit call) := by
  rw [← h.counts_live hclock hkeeps] at hroom
  have hrefused : ¬(run.reply window limit call).allowed = true := mt allowed_iff.mp hroom
  have hstored := stored_of_not_lt call.member hroom
  have hleft : ∀ m ∈ SortedSet.stored (run.advance window limit call).key,
      m ∈ SortedSet.stored run.key := by
    intro m hm
    rw [WindowRun.advance, hstored] at hm
    exact mem_stored_of_mem_live (List.mem_of_mem_filter hm)
  have hadmitted : (run.advance window limit call).admitted = run.admitted := by
    rw [WindowRun.advance, if_neg hrefused]
  refine ⟨fun now hnow => ?_, fun set hset => ?_, fun m hm => ?_, fun c hc => ?_, ?_⟩
  · rw [hadmitted, WindowRun.advance, hstored, zremrangebyscore_scores, h.counts_live hclock hkeeps,
      counting_counting hnow]
  · -- the key keeps its expiry, and no member is added
    have hmembers : ∀ m ∈ set.members, m ∈ SortedSet.stored run.key := fun m hm =>
      hleft m (by rw [hset]; exact hm)
    rw [WindowRun.advance, slidingWindowScript_of_not_lt hroom] at hset
    dsimp only at hset
    split_ifs at hset
    obtain ⟨old, hold, rfl⟩ := Option.map_eq_some_iff.mp hset
    obtain ⟨c, hc, hexpires, hscores⟩ := h.expires old hold
    rw [hadmitted]
    refine ⟨c, hc, hexpires, fun m hm => hscores m ?_⟩
    have hmem := hmembers m hm
    rw [hold] at hmem
    exact hmem
  · rw [hadmitted]
    exact h.members m (hleft m hm)
  · rw [hadmitted] at hc
    exact (h.past c hc).trans hclock
  · rw [hadmitted]
    exact h.log

/-- **Step**: a call with a new member that keeps the log. -/
theorem Mirrors.advance (h : Mirrors window limit last run) (hclock : last ≤ call.now)
    (hkeeps : Keeps window run call)
    (hfresh : call.member ∉ run.admitted.map WindowCall.member) :
    Mirrors window limit call.now (run.advance window limit call) := by
  by_cases hroom : (counting window call.now (run.admitted.map WindowCall.now)).length < limit
  · exact h.advance_of_lt hclock hkeeps hfresh hroom
  · exact h.advance_of_not_lt hclock hkeeps hroom

/-! ### Runs -/

theorem windowRun_append_singleton (calls : List WindowCall) (call : WindowCall) :
    windowRun window limit (calls ++ [call]) =
      (windowRun window limit calls).advance window limit call := List.foldl_concat ..

theorem run_windowStep (calls : List WindowCall) :
    StepSystem.run (windowStep window limit) ⟨none, []⟩ calls =
      some (windowRun window limit calls) := by
  induction calls using List.reverseRecOn with
  | nil => rfl
  | append_singleton calls call ih =>
    rw [windowRun_append_singleton]
    exact run_append.mpr ⟨_, ih, rfl⟩

/-- The admitted calls are calls. -/
theorem mem_of_mem_admitted (calls : List WindowCall) :
    ∀ c ∈ (windowRun window limit calls).admitted, c ∈ calls := by
  induction calls using List.reverseRecOn with
  | nil => exact fun c hc => hc
  | append_singleton calls call ih =>
    intro c hc
    rw [windowRun_append_singleton, WindowRun.advance] at hc
    dsimp only at hc
    split_ifs at hc
    · rcases List.mem_append.mp hc with hc | hc
      · exact List.mem_append_left _ (ih c hc)
      · exact List.mem_append_right _ hc
    · exact List.mem_append_left _ (ih c hc)

/-- Calls with distinct members on a clock of the process that does not go back. -/
structure InOrder (calls : List WindowCall) : Prop where
  clock : (calls.map WindowCall.now).Pairwise (· ≤ ·)
  members : (calls.map WindowCall.member).Nodup

theorem InOrder.of_append (h : InOrder (before ++ after)) : InOrder before := by
  have hclock := h.clock
  have hmembers := h.members
  rw [List.map_append] at hclock hmembers
  exact ⟨(List.pairwise_append.mp hclock).1, (List.nodup_append.mp hmembers).1⟩

theorem InOrder.le (h : InOrder (before ++ call :: after)) : ∀ c ∈ before, c.now ≤ call.now := by
  intro c hc
  have hclock := h.clock
  rw [List.map_append, List.pairwise_append] at hclock
  exact hclock.2.2 c.now (List.mem_map_of_mem hc) call.now List.mem_cons_self

theorem InOrder.notMem (h : InOrder (before ++ call :: after)) :
    call.member ∉ before.map WindowCall.member := by
  intro hmem
  have hmembers := h.members
  rw [List.map_append, List.nodup_append] at hmembers
  exact hmembers.2.2 call.member hmem call.member List.mem_cons_self rfl

/-- **Run**: the key mirrors the admitted calls at any moment from the last call on. -/
theorem mirrors_windowRun (horder : InOrder calls)
    (hkeeps : Along (windowStep window limit) (Keeps window) ⟨none, []⟩ calls)
    (hlast : ∀ c ∈ calls, c.now ≤ last) :
    Mirrors window limit last (windowRun window limit calls) := by
  induction calls using List.reverseRecOn generalizing last with
  | nil => exact mirrors_nil window limit last
  | append_singleton calls call ih =>
    rw [along_append (run_windowStep calls)] at hkeeps
    have hfresh : call.member ∉
        (windowRun window limit calls).admitted.map WindowCall.member := by
      intro hmem
      obtain ⟨c, hc, heq⟩ := List.mem_map.mp hmem
      exact horder.notMem (heq ▸ List.mem_map_of_mem (mem_of_mem_admitted calls c hc))
    rw [windowRun_append_singleton]
    exact ((ih horder.of_append hkeeps.1 horder.le).advance (Nat.le_refl _) hkeeps.2.1 hfresh).mono
      (hlast call (List.mem_append_right _ List.mem_cons_self))

/-- Before each call of a run that keeps the log, the key mirrors the admitted calls at the moment
of that call. -/
theorem mirrors_before (horder : InOrder (before ++ call :: after))
    (hkeeps : Along (windowStep window limit) (Keeps window) ⟨none, []⟩ (before ++ call :: after)) :
    Mirrors window limit call.now (windowRun window limit before) ∧
      Keeps window (windowRun window limit before) call := by
  rw [along_append (run_windowStep before)] at hkeeps
  exact ⟨mirrors_windowRun horder.of_append hkeeps.1 horder.le, hkeeps.2.1⟩

/-- A call that loses nothing that would count keeps the log. -/
theorem Mirrors.keeps (h : Mirrors window limit call.now run)
    (hexpiry : ∀ set, run.key = some set → KeyExpired call.clock set.expiresAt →
      ∀ m ∈ set.members, m.2 + window ≤ call.now) : Keeps window run call := by
  intro c hc hexpired
  by_contra hcounts
  -- the last admitted call counts, so the key holds it
  have hmem : c.now ∈ counting window call.now (run.admitted.map WindowCall.now) :=
    mem_counting.mpr ⟨List.mem_map_of_mem (List.mem_of_getLast? hc), Nat.lt_of_not_le hcounts⟩
  rw [← h.counts call.now (Nat.le_refl _), mem_counting] at hmem
  obtain ⟨m, hm, hnow⟩ := List.mem_map.mp hmem.1
  cases hkey : run.key with
  | none =>
    rw [hkey] at hm
    exact absurd hm List.not_mem_nil
  | some set =>
    rw [hkey] at hm
    obtain ⟨c', hc', hexpires, -⟩ := h.expires set hkey
    obtain rfl : c = c' := Option.eq_some_unique hc hc'
    exact hcounts (hnow ▸ hexpiry set hkey (hexpires ▸ hexpired) m hm)

/-- No more than `limit` moments of a log count. -/
theorem length_counting_le {log : List ℕ} (h : Admitted window limit log)
    (hlog : ∀ t ∈ log, t ≤ now) : (counting window now log).length ≤ limit := by
  refine le_trans ?_ (h.length_between_le (now + 1 - window))
  rw [counting, between]
  have hsub : List.Sublist (log.filter (now < · + window))
      (log.filter fun t => now + 1 - window ≤ t ∧ t < now + 1 - window + window) := by
    have hpast : log.filter (now < · + window) =
        log.filter fun t => decide (now < t + window) && decide (t ≤ now) := by
      refine List.filter_congr fun t ht => ?_
      rw [decide_eq_true (hlog t ht), Bool.and_true]
    rw [hpast]
    refine List.monotone_filter_right log fun t ht => ?_
    rw [Bool.and_eq_true, decide_eq_true_eq, decide_eq_true_eq] at ht
    rw [decide_eq_true_eq]
    omega
  exact hsub.length_le

/-- A refusal means that the log is full, and names seconds after which its earliest moment counts
no more. -/
theorem Mirrors.of_refused (h : Mirrors window limit call.now run) (hkeeps : Keeps window run call)
    (hlimit : 1 ≤ limit) (hrefused : (run.reply window limit call).allowed = false) :
    limit ≤ (counting window call.now (run.admitted.map WindowCall.now)).length ∧
      ∃ earliest ∈ counting window call.now (run.admitted.map WindowCall.now),
        earliest + window ≤
          call.now + 1000 * (run.reply window limit call).retryAfterSeconds := by
  have hroom : ¬(counting window call.now (run.admitted.map WindowCall.now)).length < limit := by
    rw [← h.counts_live (Nat.le_refl _) hkeeps]
    intro hlt
    have hallowed : (run.reply window limit call).allowed = true := allowed_iff.mpr hlt
    exact Bool.false_ne_true (hrefused.symm.trans hallowed)
  refine ⟨Nat.le_of_not_lt hroom, ?_⟩
  have hscores := @zremrangebyscore_scores window call.now
    (SortedSet.live call.clock run.key)
  rw [h.counts_live (Nat.le_refl _) hkeeps] at hscores
  have hlength := congrArg List.length hscores
  rw [List.length_map] at hlength
  rw [WindowRun.reply, slidingWindowScript]
  dsimp only
  rw [hlength, if_neg hroom, hscores]
  cases hmin : (counting window call.now (run.admitted.map WindowCall.now)).min? with
  | none =>
    rw [List.min?_eq_none_iff] at hmin
    rw [hmin] at hroom
    exact absurd hlimit hroom
  | some earliest =>
    refine ⟨earliest, List.min?_mem hmin, ?_⟩
    dsimp only
    have hmax : (earliest + window - call.now + 999) / 1000 ≤
        max 1 ((earliest + window - call.now + 999) / 1000) := Nat.le_max_right _ _
    generalize max 1 ((earliest + window - call.now + 999) / 1000) = seconds at hmax ⊢
    omega

theorem exists_last (calls : List WindowCall) : ∃ last, ∀ c ∈ calls, c.now ≤ last := by
  induction calls with
  | nil => exact ⟨0, nofun⟩
  | cons call calls ih =>
    obtain ⟨last, hlast⟩ := ih
    refine ⟨call.now + last, fun c hc => ?_⟩
    rcases List.mem_cons.mp hc with rfl | hc
    · exact Nat.le_add_right _ _
    · exact (hlast c hc).trans (Nat.le_add_left _ _)

/-- A run that keeps the log is exact. -/
theorem windowExact_of_along (hlimit : 1 ≤ limit) (horder : InOrder calls)
    (hkeeps : Along (windowStep window limit) (Keeps window) ⟨none, []⟩ calls) :
    WindowExact window limit calls := by
  refine ⟨fun start => ?_, ?_, ?_, ?_⟩
  · obtain ⟨last, hlast⟩ := exists_last calls
    have hlog := (mirrors_windowRun horder hkeeps hlast).log.length_between_le start
    rw [between, List.filter_map, List.length_map] at hlog
    exact hlog
  · rintro before call after rfl set hset hexpired m hm
    obtain ⟨hkey, hkeep⟩ := mirrors_before horder hkeeps
    obtain ⟨c, hc, hexpires, hscores⟩ := hkey.expires set hset
    exact (Nat.add_le_add_right (hscores m hm) window).trans (hkeep c hc (hexpires ▸ hexpired))
  · rintro before call after rfl hrefused
    obtain ⟨hkey, hkeep⟩ := mirrors_before horder hkeeps
    have hfull := (hkey.of_refused hkeep hlimit hrefused).1
    rw [counting, List.filter_map, List.length_map] at hfull
    rw [← List.filter_congr fun c hc => ?_] at hfull
    · exact hfull
    · rw [Function.comp_apply, decide_eq_decide, and_iff_left (hkey.past c hc)]
  · rintro before call between again after rfl hrefused hnone hagain
    have hsplit : before ++ call :: between ++ again :: after =
        before ++ call :: (between ++ again :: after) := List.append_assoc ..
    obtain ⟨hkey', hkeep'⟩ := mirrors_before horder hkeeps
    rw [hsplit] at horder hkeeps
    obtain ⟨hkey, hkeep⟩ := mirrors_before horder hkeeps
    obtain ⟨-, earliest, hmem, hle⟩ := hkey.of_refused hkeep hlimit hrefused
    refine allowed_iff.mpr ?_
    rw [hkey'.counts_live (Nat.le_refl _) hkeep', hnone]
    have hclocks : call.now ≤ again.now := by omega
    have hbound : (counting window call.now
        ((windowRun window limit before).admitted.map WindowCall.now)).length ≤ limit := by
      refine length_counting_le hkey.log fun t ht => ?_
      obtain ⟨c, hc, rfl⟩ := List.mem_map.mp ht
      exact hkey.past c hc
    -- the earliest moment has left the window
    rw [← counting_counting hclocks]
    refine Nat.lt_of_lt_of_le ?_ hbound
    rw [counting, List.length_filter_lt_length_iff_exists]
    exact ⟨earliest, hmem, by simpa using hle.trans hagain⟩

/-- A run whose calls lose nothing that would count keeps the log: the first call that did not would
lose the last admitted call. -/
theorem along_of_windowExact (horder : InOrder calls) (h : WindowExact window limit calls) :
    Along (windowStep window limit) (Keeps window) ⟨none, []⟩ calls := by
  have hexpiry := h.expiry
  clear h
  induction calls using List.reverseRecOn with
  | nil => exact along_nil
  | append_singleton calls call ih =>
    have hbefore : Along (windowStep window limit) (Keeps window) ⟨none, []⟩ calls := by
      refine ih horder.of_append fun before other after hcalls => ?_
      exact hexpiry before other (after ++ [call]) (by rw [hcalls]; simp)
    have hkey := mirrors_windowRun horder.of_append hbefore horder.le
    exact (along_append (run_windowStep calls)).mpr
      ⟨hbefore, hkey.keeps (hexpiry calls call [] rfl), trivial⟩

end runs

/-- The scores of a key, as the flows keep them. -/
def SortedSet.window (set : SortedSet) : Window := ⟨set.members.map Prod.snd, set.expiresAt⟩

/-- **The flows** run the script: they leave out the members, which are new. -/
theorem slidingWindow_window {clock now window limit : ℕ} {key : Option SortedSet} {member : String}
    (hfresh : ∀ m ∈ SortedSet.stored key, m.1 ≠ member) :
    slidingWindow clock now window limit (key.map SortedSet.window) =
      ((slidingWindowScript clock now window limit member key).1.map SortedSet.window,
        (slidingWindowScript clock now window limit member key).2) := by
  have hremaining : Window.remaining clock now window (key.map SortedSet.window) =
      (zremrangebyscore ((now : ℤ) - window) (SortedSet.live clock key)).map Prod.snd := by
    rw [zremrangebyscore_scores]
    cases key with
    | none => rfl
    | some =>
      rw [Option.map_some, Window.remaining, SortedSet.live, SortedSet.window]
      split_ifs <;> rfl
  have hnew : ∀ m ∈ zremrangebyscore ((now : ℤ) - window) (SortedSet.live clock key),
      m.1 ≠ member := fun m hm => hfresh m (mem_stored_of_mem_live (List.mem_of_mem_filter hm))
  rw [slidingWindow, slidingWindowScript, hremaining, List.length_map]
  dsimp only
  generalize zremrangebyscore ((now : ℤ) - window) (SortedSet.live clock key) = left at hnew ⊢
  by_cases hroom : left.length < limit
  · rw [if_pos hroom, if_pos hroom, zadd_of_notMem hnew]
    split_ifs
    · rfl
    · rw [Option.map_some, SortedSet.window, List.map_append]
      rfl
  · rw [if_neg hroom, if_neg hroom]
    simp only [List.map_eq_nil_iff]
    split_ifs
    · rfl
    · cases key <;> rfl

/-- **The limiter is exact** on calls with distinct members and a clock of the process that does
not go back exactly if no call finds the key expired while the last admitted call counts. -/
theorem slidingWindow_exact_iff {window limit : ℕ} (hlimit : 1 ≤ limit) {calls : List WindowCall}
    (hclock : (calls.map WindowCall.now).Pairwise (· ≤ ·))
    (hmembers : (calls.map WindowCall.member).Nodup) :
    WindowExact window limit calls ↔
      Along (windowStep window limit) (Keeps window) ⟨none, []⟩ calls :=
  ⟨along_of_windowExact ⟨hclock, hmembers⟩, windowExact_of_along hlimit ⟨hclock, hmembers⟩⟩

/-- Calls that reach Redis a few milliseconds after the process read its clock. -/
theorem slidingWindow_exact_iff_three :
    WindowExact 1000 1 [⟨3, 0, "a"⟩, ⟨1002, 999, "b"⟩, ⟨2001, 1999, "c"⟩] :=
  (slidingWindow_exact_iff (by decide) (by decide) (by decide)).mpr (by decide)

/-- The second call waits fifteen milliseconds on its way to Redis, which expires the key meanwhile:
two calls are admitted within one window. -/
theorem slidingWindow_late :
    ((windowRun 1000 1 [⟨0, 0, "a"⟩, ⟨1005, 990, "b"⟩]).admitted.filter fun c =>
      0 ≤ c.now ∧ c.now < 0 + 1000).length = 2 ∧
    ¬WindowExact 1000 1 [⟨0, 0, "a"⟩, ⟨1005, 990, "b"⟩] :=
  ⟨by decide, fun h => absurd (h.bounded 0) (by decide)⟩

end IChat.Auth
