import Mathlib.Data.List.Sort
import XchainWallet.Js.Text

/-!
# The sign throttle

For each origin the throttle keeps the times of the sign requests that it has let through, and asks
for patience once there are as many within the window as the burst allows. A snapshot of an earlier
session is merged in whenever its load finishes. Whatever is merged in when, no window has more
requests than the burst, and a request that is turned away leaves no trace. The wait that it is told
is right if and only if the request at the front of the kept ones is the one whose going makes room
(`throttled_iff`).
-/

namespace XchainWallet

open Function

namespace SignThrottle

/-! ### The throttle -/

/-- `SIGN_THROTTLE_DEFAULT_BURST` -/
def defaultBurst : ℕ := 5

/-- `SIGN_THROTTLE_DEFAULT_WINDOW_MS` -/
def defaultWindowMs : ℕ := 60000

/-- `Number.isFinite(v) && v > 0 ? Math.floor(v) : fallback` -/
def coerceLimit (fallback : ℕ) (v : JsNumber) : ℕ :=
  match v with
  | some q => if 0 < q then ⌊q⌋.toNat else fallback
  | none => fallback

def coerceBurst (v : JsNumber) : ℕ := coerceLimit defaultBurst v

def coerceWindowMs (v : JsNumber) : ℕ := coerceLimit defaultWindowMs v

/-- What `getLimits()` returns. -/
structure Limits where
  burst : ℕ
  windowMs : ℕ

/-- The limits of the options. -/
def Limits.ofOptions (burst windowMs : JsNumber) : Limits :=
  ⟨coerceBurst burst, coerceWindowMs windowMs⟩

/-- The times that are kept for each origin; an origin without a bucket has none. -/
abbrev Buckets := String → List ℚ

/-- The answer of `check`; a wait of `none` is `NaN`. -/
inductive CheckResult
  | allowed
  | denied (retryAfterMs : JsNumber) (burst windowMs : ℕ)
  deriving DecidableEq

/-- The kept times that are still in the window at time `t`. -/
def fresh (limits : Limits) (buckets : Buckets) (origin : String) (t : ℚ) : List ℚ :=
  (buckets origin).filter fun ts => t - limits.windowMs < ts

/-- `check(origin)` at time `t`. An empty origin is not throttled. -/
def check (limits : Limits) (buckets : Buckets) (origin : String) (t : ℚ) : Buckets × CheckResult :=
  if origin = "" then (buckets, .allowed)
  else
    let kept := fresh limits buckets origin t
    if limits.burst ≤ kept.length then
      let retryAfterMs := kept.head?.map fun oldest => max 0 (oldest + limits.windowMs - t)
      (update buckets origin kept, .denied retryAfterMs limits.burst limits.windowMs)
    else (update buckets origin (kept ++ [t]), .allowed)

/-- The entries of a snapshot: an origin, and its times where they are an array. -/
abbrev Persisted := List (String × Option (List JsNumber))

/-- One origin of a snapshot is merged in. -/
def seedEntry (buckets : Buckets) (entry : String × Option (List JsNumber)) : Buckets :=
  if entry.1 = "" then buckets
  else
    let finite := (entry.2.getD []).filterMap id
    if finite = [] then buckets
    else update buckets entry.1 ((buckets entry.1 ++ finite).mergeSort (· ≤ ·))

def seed (buckets : Buckets) (persisted : Persisted) : Buckets := persisted.foldl seedEntry buckets

/-! ### Runs -/

/-- An operation. A persist hands out a snapshot and changes nothing. -/
inductive Op
  | check (origin : String) (t : ℚ)
  | seed (persisted : Persisted)
  | persist

/-- The time of a check. -/
def Op.time? : Op → Option ℚ
  | check _ t => some t
  | _ => none

/-- The state after an operation, and the answer to a check. -/
def step (limits : Limits) (buckets : Buckets) : Op → Buckets × Option CheckResult
  | .check origin t => ((check limits buckets origin t).1, some (check limits buckets origin t).2)
  | .seed persisted => (seed buckets persisted, none)
  | .persist => (buckets, none)

/-- The state after operations. -/
def run (limits : Limits) (buckets : Buckets) (ops : List Op) : Buckets :=
  ops.foldl (fun buckets op => (step limits buckets op).1) buckets

/-- The answers to operations. -/
def answers (limits : Limits) : Buckets → List Op → List (Option CheckResult)
  | _, [] => []
  | buckets, op :: ops =>
    (step limits buckets op).2 :: answers limits (step limits buckets op).1 ops

/-- The time of an allowed check of the origin. -/
def allowedAt (origin : String) (op : Op) (answer : Option CheckResult) : Option ℚ :=
  match op with
  | .check o t => if o = origin ∧ answer = some .allowed then some t else none
  | _ => none

/-- The times of the checks of an origin that were allowed. -/
def allowedTimes (limits : Limits) (origin : String) (buckets : Buckets) (ops : List Op) : List ℚ :=
  (List.zipWith (allowedAt origin) ops (answers limits buckets ops)).filterMap id

/-- The clock does not run backwards. -/
def Clocked (ops : List Op) : Prop := (ops.filterMap Op.time?).Pairwise (· ≤ ·)

instance (ops : List Op) : Decidable (Clocked ops) :=
  inferInstanceAs (Decidable (List.Pairwise _ _))

/-! ### What is asked of the throttle -/

/-- A set of times less than a window apart. -/
def Narrow (limits : Limits) (I : ℚ → Prop) : Prop := ∀ x y, I x → I y → y - x < limits.windowMs

/-- After the wait a lone check is allowed, and after no shorter one. -/
def IsLeastWait (limits : Limits) (buckets : Buckets) (origin : String) (t wait : ℚ) : Prop :=
  (check limits buckets origin (t + wait)).2 = .allowed ∧
    ∀ d, 0 ≤ d → d < wait → (check limits buckets origin (t + d)).2 ≠ .allowed

/-- A run goes as the throttle means it to. -/
structure Throttled (limits : Limits) (buckets : Buckets) (ops : List Op) : Prop where
  /-- A half-open window, open at either end, has no more allowed checks of an origin than the
  burst. -/
  bounded : ∀ origin ≠ "", ∀ start : ℚ, ((allowedTimes limits origin buckets ops).filter
        fun x => start ≤ x ∧ x < start + limits.windowMs).length ≤ limits.burst ∧
      ((allowedTimes limits origin buckets ops).filter
        fun x => start < x ∧ x ≤ start + limits.windowMs).length ≤ limits.burst
  /-- After a check that is turned away all answers are as without it. -/
  untouched : ∀ front origin t back, ops = front ++ .check origin t :: back →
    (check limits (run limits buckets front) origin t).2 ≠ .allowed →
      answers limits (run limits buckets (front ++ [.check origin t])) back =
        answers limits (run limits buckets front) back
  /-- The wait that a check is told is the least one. -/
  least : ∀ front origin t back, ops = front ++ .check origin t :: back →
    ∀ retryAfterMs burst windowMs, (check limits (run limits buckets front) origin t).2 =
      .denied retryAfterMs burst windowMs → ∃ wait, retryAfterMs = some wait ∧
          IsLeastWait limits (run limits buckets (front ++ [.check origin t])) origin t wait

/-- Of the kept times, fewer than the burst are later than the one at the front, and no fewer than
the burst are not earlier. -/
def FrontFrees (limits : Limits) (kept : List ℚ) : Prop :=
  ∃ front ∈ kept.head?, (kept.filter (front < ·)).length < limits.burst ∧
    limits.burst ≤ (kept.filter (front ≤ ·)).length

variable {limits : Limits} {buckets buckets' : Buckets} {origin : String} {t c : ℚ} {ops : List Op}

/-! ### One check -/

theorem check_denied (ho : origin ≠ "")
    (h : limits.burst ≤ (fresh limits buckets origin t).length) :
    check limits buckets origin t = (update buckets origin (fresh limits buckets origin t),
        .denied ((fresh limits buckets origin t).head?.map
          fun oldest => max 0 (oldest + limits.windowMs - t)) limits.burst limits.windowMs) := by
  rw [check, if_neg ho]
  exact if_pos h

theorem check_allowed (ho : origin ≠ "")
    (h : (fresh limits buckets origin t).length < limits.burst) :
    check limits buckets origin t =
      (update buckets origin (fresh limits buckets origin t ++ [t]), .allowed) := by
  rw [check, if_neg ho]
  exact if_neg (not_le.mpr h)

/-- A check is turned away where the burst is reached. -/
theorem check_ne_allowed : (check limits buckets origin t).2 ≠ .allowed ↔
      origin ≠ "" ∧ limits.burst ≤ (fresh limits buckets origin t).length := by
  by_cases ho : origin = ""
  · rw [check, if_pos ho]
    simp [ho]
  · rcases le_or_gt limits.burst (fresh limits buckets origin t).length with h | h
    · rw [check_denied ho h]
      simp [ho, h]
    · rw [check_allowed ho h]
      simp [not_le.mpr h]

theorem run_append (front back : List Op) :
    run limits buckets (front ++ back) = run limits (run limits buckets front) back :=
  List.foldl_append

theorem allowedTimes_cons (op : Op) : allowedTimes limits origin buckets (op :: ops) =
      (allowedAt origin op (step limits buckets op).2).toList ++
        allowedTimes limits origin (step limits buckets op).1 ops := by
  rw [allowedTimes, answers, List.zipWith_cons_cons]
  cases allowedAt origin op (step limits buckets op).2 <;> rfl

/-! ### Times after a cutoff -/

/-- What is after a later cutoff is after the earlier one. -/
theorem filter_filter_cutoff {a b : ℚ} (h : a ≤ b) (times : List ℚ) :
    (times.filter (a < ·)).filter (b < ·) = times.filter (b < ·) := by
  rw [List.filter_filter]
  refine List.filter_congr fun x _ => ?_
  rw [Bool.eq_iff_iff, Bool.and_eq_true, decide_eq_true_iff, decide_eq_true_iff]
  exact ⟨And.left, fun hx => ⟨hx, h.trans_lt hx⟩⟩

theorem sub_windowMs_le (h : c ≤ t) : c - limits.windowMs ≤ t - limits.windowMs :=
  sub_le_sub_right h _

/-! ### The bound -/

/-- A merge keeps the times that were kept. -/
theorem subperm_seed (buckets : Buckets) (persisted : Persisted) (origin : String) :
    (buckets origin).Subperm (seed buckets persisted origin) := by
  rw [seed]
  induction persisted generalizing buckets with
  | nil => exact List.Subperm.refl _
  | cons entry persisted ih =>
    refine List.Subperm.trans ?_ (ih (seedEntry buckets entry))
    rw [seedEntry]
    split
    · exact List.Subperm.refl _
    · dsimp only
      split
      · exact List.Subperm.refl _
      · by_cases ho : origin = entry.1
        · subst ho
          rw [update_self]
          exact (List.sublist_append_left _ _).subperm.trans (List.mergeSort_perm _ _).symm.subperm
        · rw [update_of_ne ho]

/-- The times of an origin that are allowed until time `c` and are in the window then are among the
kept ones, and a narrow set of times has no more than the burst of them. -/
structure Covered (limits : Limits) (origin : String) (I : ℚ → Prop) [DecidablePred I] (c : ℚ)
    (buckets : Buckets) (done : List ℚ) : Prop where
  kept : (done.filter (c - limits.windowMs < ·)).Subperm (buckets origin)
  bound : (done.filter I).length ≤ limits.burst

section Covered

variable {I : ℚ → Prop} [DecidablePred I] {done : List ℚ}

/-- A later time is covered, too. -/
theorem Covered.later (h : Covered limits origin I c buckets done) (hct : c ≤ t) :
    (done.filter (t - limits.windowMs < ·)).Subperm (fresh limits buckets origin t) := by
  rw [← filter_filter_cutoff (sub_windowMs_le hct) done]
  exact h.kept.filter _

/-- A check of the origin that is turned away. -/
theorem Covered.denied (h : Covered limits origin I c buckets done) (hct : c ≤ t)
    (ho : origin ≠ "") (hfull : limits.burst ≤ (fresh limits buckets origin t).length) :
    Covered limits origin I t (check limits buckets origin t).1 done where
  kept := by
    rw [check_denied ho hfull]
    dsimp only
    rw [update_self]
    exact h.later hct
  bound := h.bound

/-- A check of the origin that is allowed. -/
theorem Covered.allowed (h : Covered limits origin I c buckets done) (hct : c ≤ t)
    (hI : Narrow limits I) (ho : origin ≠ "")
    (hroom : (fresh limits buckets origin t).length < limits.burst) :
    Covered limits origin I t (check limits buckets origin t).1 (done ++ [t]) where
  kept := by
    rw [check_allowed ho hroom]
    dsimp only
    rw [update_self, List.filter_append]
    exact (List.filter_sublist.append_left _).subperm.trans
      ((List.subperm_append_right [t]).mpr (h.later hct))
  bound := by
    rw [List.filter_append, List.length_append]
    by_cases ht : I t
    · -- whatever of a narrow set came before is still in the window
      have hsub : (done.filter I).Sublist (done.filter (t - limits.windowMs < ·)) := by
        refine List.monotone_filter_right done fun x hx => ?_
        rw [decide_eq_true_iff] at hx ⊢
        linarith [hI x t hx ht]
      have hlength := hsub.length_le.trans (h.later hct).length_le
      rw [List.filter_cons, if_pos (decide_eq_true ht), List.filter_nil, List.length_singleton]
      omega
    · rw [List.filter_cons, if_neg (by simpa using ht), List.filter_nil, List.length_nil]
      exact h.bound

/-- A check of another origin. -/
theorem Covered.other (h : Covered limits origin I c buckets done) (hct : c ≤ t) {o : String}
    (hne : o ≠ origin) : Covered limits origin I t (check limits buckets o t).1 done where
  kept := by
    have hsame : (check limits buckets o t).1 origin = buckets origin := by
      rw [check]
      split
      · rfl
      · dsimp only
        split <;> exact update_of_ne hne.symm _ _
    rw [hsame]
    exact (h.later hct).trans List.filter_sublist.subperm
  bound := h.bound

/-- **One operation** keeps the times of an origin covered. -/
theorem Covered.step (h : Covered limits origin I c buckets done) (hI : Narrow limits I)
    (ho : origin ≠ "") {op : Op} (hclock : ∀ t ∈ op.time?, c ≤ t) :
    Covered limits origin I (op.time?.getD c) (step limits buckets op).1
      (done ++ (allowedAt origin op (step limits buckets op).2).toList) := by
  cases op with
  | seed persisted =>
    have hnone : allowedAt origin (.seed persisted)
        (SignThrottle.step limits buckets (.seed persisted)).2 = none := rfl
    rw [hnone, Option.toList_none, List.append_nil]
    exact ⟨h.kept.trans (subperm_seed buckets persisted origin), h.bound⟩
  | persist =>
    have hnone : allowedAt origin .persist (SignThrottle.step limits buckets .persist).2 = none :=
      rfl
    rw [hnone, Option.toList_none, List.append_nil]
    exact h
  | check o t =>
    have hct : c ≤ t := hclock t rfl
    have hnone : ¬(o = origin ∧ some (check limits buckets o t).2 = some .allowed) →
        allowedAt origin (.check o t) (SignThrottle.step limits buckets (.check o t)).2 = none :=
      fun hnot => if_neg hnot
    by_cases hsame : o = origin
    · subst hsame
      rcases le_or_gt limits.burst (fresh limits buckets o t).length with hfull | hroom
      · have hdenied := check_ne_allowed.mpr ⟨ho, hfull⟩
        rw [hnone fun hboth => hdenied (Option.some.inj hboth.2), Option.toList_none,
          List.append_nil]
        exact h.denied hct ho hfull
      · have hsome : allowedAt o (.check o t) (SignThrottle.step limits buckets (.check o t)).2 =
            some t := by
          refine if_pos ⟨rfl, congrArg some ?_⟩
          rw [check_allowed ho hroom]
        rw [hsome]
        exact h.allowed hct hI ho hroom
    · rw [hnone fun hboth => hsame hboth.1, Option.toList_none, List.append_nil]
      exact h.other hct hsame

/-- **A whole run** keeps the times of an origin covered. -/
theorem Covered.run (h : Covered limits origin I c buckets done) (hI : Narrow limits I)
    (ho : origin ≠ "") (hclock : (c :: ops.filterMap Op.time?).Pairwise (· ≤ ·)) :
    ((done ++ allowedTimes limits origin buckets ops).filter I).length ≤ limits.burst := by
  induction ops generalizing c buckets done with
  | nil =>
    rw [allowedTimes, List.zipWith_nil_left, List.filterMap_nil, List.append_nil]
    exact h.bound
  | cons op ops ih =>
    rw [allowedTimes_cons, ← List.append_assoc]
    cases htime : op.time? with
    | none =>
      have hnone : ∀ t ∈ op.time?, c ≤ t := by
        rw [htime]
        simp
      have hstep := h.step hI ho hnone
      rw [htime, Option.getD_none] at hstep
      rw [List.filterMap_cons_none htime] at hclock
      exact ih hstep hclock
    | some t =>
      rw [List.filterMap_cons_some htime, List.pairwise_cons] at hclock
      have hlater : ∀ t' ∈ op.time?, c ≤ t' := by
        intro t' ht'
        rw [htime, Option.mem_some_iff] at ht'
        rw [← ht']
        exact hclock.1 t List.mem_cons_self
      have hstep := h.step hI ho hlater
      rw [htime, Option.getD_some] at hstep
      exact ih hstep hclock.2

end Covered

/-! ### What a check that is turned away leaves behind -/

/-- From time `c` on the two states have the same times in the window. -/
def SameFrom (limits : Limits) (c : ℚ) (buckets buckets' : Buckets) : Prop :=
  ∀ origin, (buckets origin).filter (c - limits.windowMs < ·) =
    (buckets' origin).filter (c - limits.windowMs < ·)

theorem SameFrom.later (h : SameFrom limits c buckets buckets') (hct : c ≤ t) :
    SameFrom limits t buckets buckets' := by
  intro origin
  rw [← filter_filter_cutoff (sub_windowMs_le hct) (buckets origin), h origin,
    filter_filter_cutoff (sub_windowMs_le hct)]

theorem pairwise_mergeSort (times : List ℚ) : (times.mergeSort (· ≤ ·)).Pairwise (· ≤ ·) := by
  have hpairwise : (times.mergeSort (· ≤ ·)).Pairwise fun a b => decide (a ≤ b) := by
    refine List.pairwise_mergeSort (fun a b c hab hbc => ?_) (fun a b => ?_) times
    · rw [decide_eq_true_iff] at hab hbc ⊢
      exact hab.trans hbc
    · rw [Bool.or_eq_true, decide_eq_true_iff, decide_eq_true_iff]
      exact le_total a b
  exact hpairwise.imp of_decide_eq_true

/-- Times in order are the sorted times. -/
theorem mergeSort_eq {times sorted : List ℚ} (hsorted : sorted.Pairwise (· ≤ ·))
    (hperm : times.Perm sorted) : times.mergeSort (· ≤ ·) = sorted :=
  List.Perm.eq_of_pairwise (fun _ _ _ _ hab hba => le_antisymm hab hba) (pairwise_mergeSort times)
    hsorted ((List.mergeSort_perm times _).trans hperm)

/-- Sorting and cutting may be swapped. -/
theorem filter_mergeSort (p : ℚ → Bool) (times : List ℚ) :
    (times.mergeSort (· ≤ ·)).filter p = (times.filter p).mergeSort (· ≤ ·) := by
  refine (mergeSort_eq ((pairwise_mergeSort times).sublist List.filter_sublist) ?_).symm
  exact ((List.mergeSort_perm times _).filter p).symm

theorem SameFrom.seedEntry (h : SameFrom limits c buckets buckets')
    (entry : String × Option (List JsNumber)) :
    SameFrom limits c (seedEntry buckets entry) (seedEntry buckets' entry) := by
  intro origin
  rw [SignThrottle.seedEntry, SignThrottle.seedEntry]
  split
  · exact h origin
  · dsimp only
    split
    · exact h origin
    · by_cases ho : origin = entry.1
      · subst ho
        rw [update_self, update_self, filter_mergeSort, filter_mergeSort,
          List.filter_append, List.filter_append, h entry.1]
      · rw [update_of_ne ho, update_of_ne ho]
        exact h origin

theorem SameFrom.seed (h : SameFrom limits c buckets buckets') (persisted : Persisted) :
    SameFrom limits c (seed buckets persisted) (seed buckets' persisted) := by
  rw [SignThrottle.seed, SignThrottle.seed]
  induction persisted generalizing buckets buckets' with
  | nil => exact h
  | cons entry persisted ih => exact ih (h.seedEntry entry)

/-- A check of either state has one answer, and leaves states that are the same again. -/
theorem SameFrom.check (h : SameFrom limits c buckets buckets') (hct : c ≤ t) (origin : String) :
    (check limits buckets origin t).2 = (check limits buckets' origin t).2 ∧
      SameFrom limits t (check limits buckets origin t).1 (check limits buckets' origin t).1 := by
  have hlater := h.later hct
  have hfresh : fresh limits buckets origin t = fresh limits buckets' origin t := hlater origin
  have hupdate : ∀ times, SameFrom limits t (update buckets origin times)
      (update buckets' origin times) := by
    intro times o
    by_cases ho : o = origin
    · subst ho
      rw [update_self, update_self]
    · rw [update_of_ne ho, update_of_ne ho]
      exact hlater o
  rw [SignThrottle.check, SignThrottle.check, hfresh]
  split
  · exact ⟨rfl, hlater⟩
  · dsimp only
    split
    · exact ⟨rfl, hupdate _⟩
    · exact ⟨rfl, hupdate _⟩

/-- States that are the same from a time on give the same answers from then on. -/
theorem SameFrom.answers (h : SameFrom limits c buckets buckets')
    (hclock : (c :: ops.filterMap Op.time?).Pairwise (· ≤ ·)) :
    answers limits buckets ops = answers limits buckets' ops := by
  induction ops generalizing c buckets buckets' with
  | nil => rfl
  | cons op ops ih =>
    rw [SignThrottle.answers, SignThrottle.answers]
    cases op with
    | seed persisted => exact congrArg _ (ih (h.seed persisted) hclock)
    | persist => exact congrArg _ (ih h hclock)
    | check o t =>
      have htime : (Op.check o t).time? = some t := rfl
      rw [List.filterMap_cons_some htime, List.pairwise_cons] at hclock
      obtain ⟨hanswer, hsame⟩ := h.check (hclock.1 t List.mem_cons_self) o
      exact congrArg₂ (fun answer rest => some answer :: rest) hanswer (ih hsame hclock.2)

/-- A check that is turned away drops what is out of the window, and nothing else. -/
theorem sameFrom_denied (ho : origin ≠ "")
    (hfull : limits.burst ≤ (fresh limits buckets origin t).length) :
    SameFrom limits t (check limits buckets origin t).1 buckets := by
  intro o
  rw [check_denied ho hfull]
  dsimp only
  by_cases hsame : o = origin
  · subst hsame
    rw [update_self, fresh, List.filter_filter]
    simp only [Bool.and_self]
  · rw [update_of_ne hsame]

/-! ### The least wait -/

/-- There is a time below a bound that no earlier one of finitely many times passes. -/
theorem exists_last_before {a b : ℚ} (h : a < b) (times : List ℚ) :
    ∃ c, a ≤ c ∧ c < b ∧ ∀ x ∈ times, x < b → x ≤ c := by
  induction times with
  | nil => exact ⟨a, le_rfl, h, by simp⟩
  | cons x times ih =>
    obtain ⟨c, hac, hcb, hle⟩ := ih
    by_cases hx : x < b
    · refine ⟨max c x, hac.trans (le_max_left c x), max_lt hcb hx, ?_⟩
      rw [List.forall_mem_cons]
      exact ⟨fun _ => le_max_right c x, fun y hy hyb => (hle y hy hyb).trans (le_max_left c x)⟩
    · refine ⟨c, hac, hcb, ?_⟩
      rw [List.forall_mem_cons]
      exact ⟨fun hxb => absurd hxb hx, hle⟩

/-- A retry after a check that was turned away counts the kept times after its own cutoff. -/
theorem retry_allowed_iff (ho : origin ≠ "")
    (hfull : limits.burst ≤ (fresh limits buckets origin t).length) (d : ℚ) :
    (check limits (check limits buckets origin t).1 origin (t + d)).2 = .allowed ↔
      ((fresh limits buckets origin t).filter (t + d - limits.windowMs < ·)).length <
        limits.burst := by
  have hkept : fresh limits (check limits buckets origin t).1 origin (t + d) =
      (fresh limits buckets origin t).filter (t + d - limits.windowMs < ·) := by
    rw [check_denied ho hfull]
    dsimp only
    rw [fresh, update_self]
  rw [← not_iff_not, not_lt, ← hkept]
  exact check_ne_allowed.trans (and_iff_right ho)

/-- **When the wait is the least one.** -/
theorem least_iff (ho : origin ≠ "")
    (hfull : limits.burst ≤ (fresh limits buckets origin t).length) :
    (∃ wait, (fresh limits buckets origin t).head?.map
        (fun oldest => max 0 (oldest + limits.windowMs - t)) = some wait ∧
          IsLeastWait limits (check limits buckets origin t).1 origin t wait) ↔
      FrontFrees limits (fresh limits buckets origin t) := by
  have hretry := retry_allowed_iff ho hfull
  have hin : ∀ x ∈ fresh limits buckets origin t, t - limits.windowMs < x := fun x hx =>
    of_decide_eq_true (List.mem_filter.mp hx).2
  generalize fresh limits buckets origin t = kept at hretry hin ⊢
  cases hhead : kept.head? with
  | none => simp [FrontFrees, hhead]
  | some front =>
    have hfront : t - limits.windowMs < front := hin front (List.mem_of_mem_head? hhead)
    have hwait : max 0 (front + limits.windowMs - t) = front + limits.windowMs - t :=
      max_eq_right (by linarith)
    have hcutoff : t + (front + limits.windowMs - t) - limits.windowMs = front := by ring
    simp only [FrontFrees, hhead, Option.map_some, hwait, Option.some.injEq, exists_eq_left',
      Option.mem_def]
    rw [IsLeastWait, hretry, hcutoff]
    refine and_congr_right fun _ => ?_
    constructor
    · intro hsooner
      -- just before the front's time passes, all times from it on are still kept
      obtain ⟨c, hc, hcfront, hlast⟩ := exists_last_before hfront kept
      have hdenied := hsooner (c - (t - limits.windowMs)) (by linarith) (by linarith)
      have hsame : t + (c - (t - limits.windowMs)) - limits.windowMs = c := by ring
      rw [ne_eq, hretry, hsame, not_lt] at hdenied
      have hfilter : kept.filter (front ≤ ·) = kept.filter (c < ·) := by
        refine List.filter_congr fun x hx => ?_
        rw [Bool.eq_iff_iff, decide_eq_true_iff, decide_eq_true_iff]
        refine ⟨fun hle => hcfront.trans_le hle, fun hlt => ?_⟩
        by_contra hbefore
        exact absurd (hlast x hx (not_le.mp hbefore)) (not_le.mpr hlt)
      rwa [hfilter]
    · intro hfrom d _ hd
      have hsub : (kept.filter (front ≤ ·)).Sublist
          (kept.filter (t + d - limits.windowMs < ·)) := by
        refine List.monotone_filter_right kept fun x hx => ?_
        rw [decide_eq_true_iff] at hx ⊢
        linarith
      rw [ne_eq, hretry, not_lt]
      exact hfrom.trans hsub.length_le

/-! ### The throttle over a run -/

theorem run_check (front : List Op) : run limits buckets (front ++ [.check origin t]) =
      (check limits (run limits buckets front) origin t).1 := by
  rw [run_append]
  rfl

theorem bounded_of_clocked (hclock : Clocked ops) {I : ℚ → Prop} [DecidablePred I]
    (hI : Narrow limits I) (ho : origin ≠ "") :
    ((allowedTimes limits origin buckets ops).filter I).length ≤ limits.burst := by
  obtain ⟨c, hc⟩ : ∃ c : ℚ, (c :: ops.filterMap Op.time?).Pairwise (· ≤ ·) := by
    rw [Clocked] at hclock
    cases htimes : ops.filterMap Op.time? with
    | nil => exact ⟨0, by simp⟩
    | cons t times =>
      rw [htimes] at hclock
      refine ⟨t, List.pairwise_cons.mpr ⟨fun x hx => ?_, hclock⟩⟩
      rcases List.mem_cons.mp hx with rfl | hx
      · exact le_rfl
      · exact (List.pairwise_cons.mp hclock).1 x hx
  have hcovered : Covered limits origin I c buckets [] := ⟨by simp, by simp⟩
  have hrun := hcovered.run hI ho hc
  rwa [List.nil_append] at hrun

/-- **The throttle.** With a clock that does not run backwards every window is bounded, a check that
is turned away leaves no trace, and each wait is the least one if and only if the time at the front
of the kept ones is the one whose going makes room. -/
theorem throttled_iff (hclock : Clocked ops) :
    Throttled limits buckets ops ↔
      ∀ front origin t back, ops = front ++ .check origin t :: back → origin ≠ "" →
        limits.burst ≤ (fresh limits (run limits buckets front) origin t).length →
          FrontFrees limits (fresh limits (run limits buckets front) origin t) := by
  constructor
  · intro h front origin t back hops ho hfull
    refine (least_iff ho hfull).mp ?_
    rw [← run_check]
    exact h.least front origin t back hops _ _ _ (congrArg Prod.snd (check_denied ho hfull))
  · intro h
    refine ⟨fun origin ho start => ⟨?_, ?_⟩, ?_, ?_⟩
    · refine bounded_of_clocked hclock (fun x y hx hy => ?_) ho
      linarith [hx.1, hy.2]
    · refine bounded_of_clocked hclock (fun x y hx hy => ?_) ho
      linarith [hx.1, hy.2]
    · intro front origin t back hops hdenied
      obtain ⟨ho, hfull⟩ := check_ne_allowed.mp hdenied
      have hback : (t :: back.filterMap Op.time?).Pairwise (· ≤ ·) := by
        have htime : (Op.check origin t).time? = some t := rfl
        rw [Clocked, hops, List.filterMap_append, List.filterMap_cons_some htime] at hclock
        exact (List.pairwise_append.mp hclock).2.1
      rw [run_check]
      exact (sameFrom_denied ho hfull).answers hback
    · intro front origin t back hops retryAfterMs burst windowMs hanswer
      have hdenied : (check limits (run limits buckets front) origin t).2 ≠ .allowed := by
        rw [hanswer]
        simp
      obtain ⟨ho, hfull⟩ := check_ne_allowed.mp hdenied
      rw [check_denied ho hfull] at hanswer
      injection hanswer with hretry
      rw [← hretry, run_check]
      exact (least_iff ho hfull).mpr (h front origin t back hops ho hfull)

/-- Two requests are let through, and the third is told to wait until the first has gone. -/
theorem throttled_iff_burst :
    Throttled ⟨2, 1000⟩ (fun _ => [])
      [.check "site" 0, .check "site" 1, .check "site" 2] := by
  refine (throttled_iff (by decide)).mpr fun front origin t back hops ho hfull => ?_
  have hfront : front = [] ∨ front = [.check "site" 0] ∨
      front = [.check "site" 0, .check "site" 1] := by
    rcases front with _ | ⟨a, _ | ⟨b, _ | ⟨c, rest⟩⟩⟩
    · exact .inl rfl
    · obtain ⟨rfl, -⟩ := List.cons.inj hops
      exact .inr (.inl rfl)
    · obtain ⟨rfl, hrest⟩ := List.cons.inj hops
      obtain ⟨rfl, -⟩ := List.cons.inj hrest
      exact .inr (.inr rfl)
    · simp at hops
  rcases hfront with rfl | rfl | rfl
  · obtain ⟨hcheck, -⟩ := List.cons.inj hops
    cases hcheck
    exact absurd hfull (by decide)
  · obtain ⟨-, hrest⟩ := List.cons.inj hops
    obtain ⟨hcheck, -⟩ := List.cons.inj hrest
    cases hcheck
    exact absurd hfull (by decide +kernel)
  · obtain ⟨-, hrest⟩ := List.cons.inj hops
    obtain ⟨-, hrest⟩ := List.cons.inj hrest
    obtain ⟨hcheck, -⟩ := List.cons.inj hrest
    cases hcheck
    exact ⟨0, by decide +kernel, by decide +kernel, by decide +kernel⟩

/-- Two times are merged in before two live ones: when the first of the four has gone, three are
left of a burst of two. -/
theorem not_throttled :
    Clocked [.check "site" 0, .check "site" 1, .seed [("site", some [some (-500), some (-400)])],
      .check "site" 2] ∧
      ¬Throttled ⟨2, 1000⟩ (fun _ => []) [.check "site" 0, .check "site" 1,
        .seed [("site", some [some (-500), some (-400)])], .check "site" 2] := by
  refine ⟨by decide, fun h => ?_⟩
  obtain ⟨live, hlive⟩ : ∃ live, run ⟨2, 1000⟩ (fun _ => [])
      [.check "site" 0, .check "site" 1] = live := ⟨_, rfl⟩
  have htimes : live "site" = [0, 1] := by
    rw [← hlive]
    decide +kernel
  have hfresh : fresh ⟨2, 1000⟩ (run ⟨2, 1000⟩ (fun _ => []) [.check "site" 0, .check "site" 1,
      .seed [("site", some [some (-500), some (-400)])]]) "site" 2 = [-500, -400, 0, 1] := by
    have hsorted : ([0, 1, -500, -400] : List ℚ).mergeSort (· ≤ ·) = [-500, -400, 0, 1] :=
      mergeSort_eq (by decide) (by decide)
    have hseed : seed live [("site", some [some (-500), some (-400)])] "site" =
        [-500, -400, 0, 1] := by
      rw [← hsorted]
      simp [seed, seedEntry, htimes]
    have hrun : run ⟨2, 1000⟩ (fun _ => []) [.check "site" 0, .check "site" 1,
        .seed [("site", some [some (-500), some (-400)])]] =
          seed live [("site", some [some (-500), some (-400)])] := by
      rw [← hlive]
      rfl
    rw [fresh, hrun, hseed]
    decide +kernel
  have hfull : 2 ≤ (fresh ⟨2, 1000⟩ (run ⟨2, 1000⟩ (fun _ => []) [.check "site" 0,
      .check "site" 1, .seed [("site", some [some (-500), some (-400)])]]) "site" 2).length := by
    rw [hfresh]
    decide
  have hleast := h.least [.check "site" 0, .check "site" 1,
    .seed [("site", some [some (-500), some (-400)])]] "site" 2 [] rfl _ _ _
    (congrArg Prod.snd (check_denied (by decide) hfull))
  rw [run_check, least_iff (by decide) hfull, hfresh] at hleast
  obtain ⟨front, hfront, hlater, -⟩ := hleast
  rw [← Option.some.inj hfront] at hlater
  exact absurd hlater (by decide)

end SignThrottle

end XchainWallet
