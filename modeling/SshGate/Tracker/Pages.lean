import SshGate.Tracker.History
import SshGate.Tracker.Lifecycle

/-! # Pages of the connection list

`List` sorts the records of a tab that pass the filters and cuts out a page.
The product of the page number and the page size is taken in 64 bits: a page
number that a client sends can make it wrap around.
-/

namespace SshGate.Tracker

open Go Interaction

/-- The answer to a request of the status page. -/
inductive Response where
  | methodNotAllowed
  | badRequest (text : Text)
  | rejected (err : ListError)
  | page (total : Nat) (page pageSize : Int) (items : List ConnView)
  | panicked
  deriving Repr, DecidableEq

/-- A number of the query with its default and its bounds. -/
def queryNumber (query : Text → Text) (key : Text) (fallback : Int) (valid : Int → Bool) :
    Except Text Int :=
  if query key = [] then .ok fallback
  else
    match (query key).atoi with
    | some n => if valid n then .ok n else .error (str "invalid " ++ key)
    | none => .error (str "invalid " ++ key)

/-- What is sent back for the outcome of `List`. -/
def respond (page pageSize : Int) : Outcome → Response
  | .page views total => .page total page pageSize views
  | .rejected err => .rejected err
  | _ => .panicked

/-- `hasTracker` is whether the server was given a tracker. -/
def handleConnections (lower : Nat → Nat) (hasTracker isGet : Bool) (query : Text → Text) :
    Prog Response :=
  if !isGet then return .methodNotAllowed
  else
    let tab := if query (str "tab") = [] then str "active" else query (str "tab")
    match queryNumber query (str "page") 1 fun n => 1 ≤ n with
    | .error text => return .badRequest text
    | .ok page =>
        match queryNumber query (str "page_size") 50 fun n => 1 ≤ n && n ≤ 200 with
        | .error text => return .badRequest text
        | .ok pageSize =>
            if hasTracker then do
              let outcome ← list lower tab (query (str "q")) (query (str "proto")) page pageSize
              return respond page pageSize outcome
            else return .page 0 page pageSize []

theorem queryNumber_bounds {query : Text → Text} {key : Text} {fallback n : Int}
    {valid : Int → Bool} (hfallback : fallback < 2 ^ 63) (hvalid : valid fallback = true)
    (hnumber : queryNumber query key fallback valid = .ok n) : valid n = true ∧ n < 2 ^ 63 := by
  unfold queryNumber at hnumber
  split at hnumber
  next =>
    cases hnumber
    exact ⟨hvalid, hfallback⟩
  next =>
    split at hnumber
    next m hatoi =>
      split at hnumber
      next hm =>
        cases hnumber
        exact ⟨hm, (Text.atoi_bounds hatoi).2⟩
      next => cases hnumber
    next => cases hnumber

/-- The page numbers and sizes that get to `List`. -/
theorem request_bounds {query : Text → Text} {page pageSize : Int}
    (hpage : queryNumber query (str "page") 1 (fun n => 1 ≤ n) = .ok page)
    (hsize : queryNumber query (str "page_size") 50 (fun n => 1 ≤ n && n ≤ 200) = .ok pageSize) :
    (1 ≤ page ∧ page < 2 ^ 63) ∧ 1 ≤ pageSize ∧ pageSize ≤ 200 := by
  obtain ⟨hlow, hhigh⟩ := queryNumber_bounds (by decide) (by decide) hpage
  obtain ⟨hsize, _⟩ := queryNumber_bounds (by decide) (by decide) hsize
  simp only [Bool.and_eq_true, decide_eq_true_eq] at hlow hsize
  exact ⟨⟨hlow, hhigh⟩, hsize⟩

/-- The call of `List` for a request that it is made for. -/
theorem handleConnections_eq {lower : Nat → Nat} {query : Text → Text} {page pageSize : Int}
    (hpage : queryNumber query (str "page") 1 (fun n => 1 ≤ n) = .ok page)
    (hsize : queryNumber query (str "page_size") 50 (fun n => 1 ≤ n && n ≤ 200) = .ok pageSize) :
    handleConnections lower true true query =
      list lower (if query (str "tab") = [] then str "active" else query (str "tab"))
        (query (str "q")) (query (str "proto")) page pageSize >>= fun outcome =>
          return respond page pageSize outcome := by
  simp [handleConnections, hpage, hsize]

/-! ## Sorting -/

theorem newerThan_iff {a b : ConnRecord} :
    newerThan a b = true ↔
      b.startedAt < a.startedAt ∨ a.startedAt = b.startedAt ∧ b.id < a.id := by
  unfold newerThan
  split
  next hne =>
    simp only [decide_eq_true_eq]
    omega
  next heq =>
    simp only [decide_eq_true_eq]
    omega

theorem newerThan_eq_false {a b : ConnRecord} :
    newerThan a b = false ↔
      a.startedAt < b.startedAt ∨ a.startedAt = b.startedAt ∧ a.id ≤ b.id := by
  rw [← Bool.not_eq_true, newerThan_iff]
  omega

/-- Of two records with different ids one is the newer. -/
theorem sortRecords_pairwise {recs : List ConnRecord} (hids : (recs.map ConnRecord.id).Nodup) :
    (sortRecords recs).Pairwise (newerThan · ·) := by
  have htotal : Std.Total fun a b : ConnRecord => newerThan b a = false :=
    ⟨fun a b => by rw [newerThan_eq_false, newerThan_eq_false]; omega⟩
  have htrans : IsTrans ConnRecord fun a b => newerThan b a = false :=
    ⟨fun a b c hab hbc => by rw [newerThan_eq_false] at *; omega⟩
  have hsorted := List.pairwise_insertionSort (fun a b => newerThan b a = false) recs
  have hperm := List.perm_insertionSort (fun a b => newerThan b a = false) recs
  have hdistinct : (sortRecords recs).Pairwise (·.id ≠ ·.id) :=
    List.pairwise_map.mp ((hperm.map ConnRecord.id).nodup_iff.mpr hids)
  refine (hsorted.and hdistinct).imp ?_
  rintro a b ⟨hle, hne⟩
  rw [newerThan_eq_false] at hle
  rw [newerThan_iff]
  omega

/-! ## Cutting out a page -/

/-- Elements `(page - 1) * pageSize` up to `page * pageSize` of a list. -/
def pageSlice {α : Type} (list : List α) (page pageSize : Int) : List α :=
  (list.drop ((page - 1) * pageSize).toNat).take pageSize.toNat

theorem int64_eq_self {n : Int} (hlow : 0 ≤ n) (hhigh : n < 2 ^ 63) : int64 n = n := by
  rw [int64, Int.bmod_eq_of_le (by omega) (by omega)]

theorem slice_eq {α : Type} {list : List α} {start stop : Int} (hstart : 0 ≤ start)
    (hstop : start ≤ stop) (hlength : stop ≤ list.length) :
    slice list start stop = some ((list.drop start.toNat).take (stop - start).toNat) := by
  rw [slice, if_pos ⟨hstart, hstop, hlength⟩, List.drop_take]
  congr
  omega

section PageOf

variable {recs : List ConnRecord} {page pageSize : Int}

/-- A list of records is far from the limits of an `int`. -/
def FitsMemory (recs : List ConnRecord) : Prop := recs.length < 2 ^ 62

/-- The page starts at an index that an `int` holds, or the index that comes out
instead is past the end as well. -/
def StartsInRange (total : Nat) (page pageSize : Int) : Prop :=
  (page - 1) * pageSize < 2 ^ 63 ∨ (total : Int) ≤ int64 ((page - 1) * pageSize)

theorem pageOf_eq (hfits : FitsMemory recs) (hpage : 1 ≤ page) (hsize : 1 ≤ pageSize)
    (hmax : pageSize ≤ 200) (hstart : (page - 1) * pageSize < 2 ^ 63) :
    pageOf recs page pageSize = some (pageSlice recs page pageSize) := by
  have hnonneg : 0 ≤ (page - 1) * pageSize := Int.mul_nonneg (by omega) (by omega)
  have hle : (page - 1) * 1 ≤ (page - 1) * pageSize :=
    Int.mul_le_mul_of_nonneg_left hsize (by omega)
  unfold FitsMemory at hfits
  simp only [pageOf, pageSlice]
  rw [int64_eq_self (n := page - 1) (by omega) (by omega), int64_eq_self hnonneg hstart]
  generalize (page - 1) * pageSize = start at *
  split
  next hpast => rw [List.drop_eq_nil_of_le (by omega), List.take_nil]
  next hinside =>
    rw [int64_eq_self (n := start + pageSize) (by omega) (by omega)]
    split
    next hlast =>
      rw [slice_eq hnonneg (by omega) (by omega)]
      rw [List.take_of_length_le (by simp; omega), List.take_of_length_le (by simp; omega)]
    next hfull =>
      rw [slice_eq hnonneg (by omega) (by omega)]
      congr
      omega

theorem pageSlice_eq_nil (hfits : FitsMemory recs) (hstart : 2 ^ 63 ≤ (page - 1) * pageSize) :
    pageSlice recs page pageSize = [] := by
  unfold FitsMemory at hfits
  rw [pageSlice, List.drop_eq_nil_of_le (by omega), List.take_nil]

/-- The page is the right one exactly if its start is in range. -/
theorem pageOf_eq_iff (hfits : FitsMemory recs) (hpage : 1 ≤ page) (hmaxPage : page < 2 ^ 63)
    (hsize : 1 ≤ pageSize) (hmax : pageSize ≤ 200) :
    pageOf recs page pageSize = some (pageSlice recs page pageSize) ↔
      StartsInRange recs.length page pageSize := by
  by_cases hstart : (page - 1) * pageSize < 2 ^ 63
  · exact iff_of_true (pageOf_eq hfits hpage hsize hmax hstart) (.inl hstart)
  · -- The right page is empty: it starts beyond any list that fits in memory.
    have hempty := pageSlice_eq_nil hfits (Int.not_lt.mp hstart)
    unfold FitsMemory at hfits
    simp only [pageOf, hempty, StartsInRange, hstart, false_or]
    rw [int64_eq_self (n := page - 1) (by omega) (by omega)]
    generalize int64 ((page - 1) * pageSize) = start
    split
    next hpast => exact iff_of_true rfl (by omega)
    next hinside =>
      refine iff_of_false (fun hslice => ?_) (by omega)
      generalize hstop : (if int64 (start + pageSize) > recs.length then (recs.length : Int)
        else int64 (start + pageSize)) = stop at hslice
      unfold slice at hslice
      split at hslice
      next hbounds =>
        obtain ⟨hlow, _, hhigh⟩ := hbounds
        rw [int64_eq_self (n := start + pageSize) (by omega) (by omega)] at hstop
        have hlength := congrArg List.length (Option.some.inj hslice)
        simp only [List.length_drop, List.length_take, List.length_nil] at hlength
        split at hstop <;> omega
      next => cases hslice

/-- The first pages are the beginning of the list. -/
theorem flatMap_pageSlice (hsize : 1 ≤ pageSize) (n : Nat) :
    (List.range n).flatMap (fun p : Nat => pageSlice recs (p + 1) pageSize) =
      recs.take (n * pageSize.toNat) := by
  induction n with
  | zero => simp
  | succ n ih =>
      have hstart : (((n : Int) + 1 - 1) * pageSize).toNat = n * pageSize.toNat := by
        rw [Int.add_sub_cancel, Int.toNat_mul (by omega) (by omega), Int.toNat_natCast]
      rw [List.range_succ, List.flatMap_append, ih, List.flatMap_singleton, pageSlice, hstart,
        Nat.succ_mul, List.take_add]

end PageOf

/-! ## What `List` returns -/

/-- The view shows the record, with the bytes counted when it was made. -/
def Shows (now : Int) (view : ConnView) (rec : ConnRecord) : Prop :=
  ∃ bytes, view = viewOf rec now bytes

theorem toViews_shows {now : Int} {recs : List ConnRecord} {trace : List (Event sig)}
    {views : List ConnView} (hpath : (toViews now recs).Returns trace views) :
    List.Forall₂ (Shows now) views recs := by
  induction recs generalizing trace views with
  | nil =>
      obtain ⟨_, rfl⟩ := Program.returns_ret.mp hpath
      exact .nil
  | cons rec rest ih =>
      obtain ⟨_, view, _, _, hview, hrest⟩ := Program.returns_bind.mp hpath
      obtain ⟨_, bytes, _, _, _, hview⟩ := Program.returns_bind.mp hview
      obtain ⟨_, views', _, _, hviews, hlast⟩ := Program.returns_bind.mp hrest
      obtain ⟨_, rfl⟩ := Program.returns_ret.mp hview
      obtain ⟨_, rfl⟩ := Program.returns_ret.mp hlast
      exact .cons ⟨bytes, rfl⟩ (ih hviews)

/-- The records of a tab. -/
def ConnTracker.records (t : ConnTracker) : Tab → List ConnRecord
  | .active => t.active
  | .history => t.ring.contents

/-- The page of those records that pass the filters: sorted by start, then id,
latest first. -/
def ShowsPage (recs : List ConnRecord) (page pageSize now : Int) (outcome : Outcome) : Prop :=
  ∃ all views, all.Perm recs ∧ all.Pairwise (newerThan · ·) ∧
    outcome = .page views recs.length ∧
    List.Forall₂ (Shows now) views (pageSlice all page pageSize)

/-- `List` with arguments that it accepts. -/
theorem list_eq {lower : Nat → Nat} {tabText q proto : Text} {tab : Tab} {page pageSize : Int}
    (htab : parseTab tabText = some tab) (hpage : 1 ≤ page) (hsize : 1 ≤ pageSize)
    (hmax : pageSize ≤ 200) :
    list lower tabText q proto page pageSize = act (.list tab) >>= fun sweep =>
      let recs := sortRecords (filterRecords lower q proto sweep.recs)
      match pageOf recs page pageSize with
      | none => return .panicked
      | some recs' => do
          let views ← toViews sweep.now recs'
          return .page views recs.length := by
  unfold list
  rw [htab]
  simp only
  exact (if_neg (by omega)).trans (if_neg (by omega))

theorem filterRecords_perm {lower : Nat → Nat} {q proto : Text} {recs recs' : List ConnRecord}
    (hperm : recs.Perm recs') :
    (filterRecords lower q proto recs).Perm (filterRecords lower q proto recs') := by
  unfold filterRecords
  split
  next => split <;> [exact (hperm.filter _).filter _; exact hperm.filter _]
  next => split <;> [exact hperm.filter _; exact hperm]

theorem filterRecords_sublist {lower : Nat → Nat} {q proto : Text} (recs : List ConnRecord) :
    (filterRecords lower q proto recs).Sublist recs := by
  unfold filterRecords
  split
  next =>
    split
    next => exact List.filter_sublist.trans List.filter_sublist
    next => exact List.filter_sublist
  next =>
    split
    next => exact List.filter_sublist
    next => exact List.Sublist.refl _

/-- What the locked section of `List` reads. -/
theorem recs_perm_records {w w' : World} {tab : Tab} {sweep : Sweep}
    (hlist : World.perform (.list tab) w sweep = some w') :
    sweep.recs.Perm (w'.tracker.records tab) := by
  simp only [World.perform, Option.ite_none_right_eq_some, Option.some.injEq] at hlist
  obtain ⟨⟨_, hread⟩, rfl⟩ := hlist
  cases tab with
  | active => exact of_decide_eq_true hread
  | history => exact of_decide_eq_true hread ▸ .refl _

/-- No two records of a tab have the same id. -/
theorem records_nodup {w : World} {capacity : Nat} {maxAge : Int} (hw : w.tracker.Accounted)
    (hkept : Kept capacity maxAge w) (tab : Tab) :
    ((w.tracker.records tab).map ConnRecord.id).Nodup := by
  obtain ⟨hactive, hfinished, _⟩ := List.nodup_append.mp hw.nodup
  cases tab with
  | active => exact hactive
  | history =>
      obtain ⟨gone, hwindow, _⟩ := hkept.refines.window hkept.ordered
      have hsplit : w.tracker.finished = gone.map Prod.fst ++ w.tracker.ring.contents := by
        rw [hkept.refines]
        exact hwindow.pushed_eq
      rw [ConnTracker.finishedIds, hsplit, List.map_append] at hfinished
      exact (List.nodup_append.mp hfinished).2.1

theorem reply_nonempty (op : Op) : Nonempty op.Reply := by
  cases op <;> exact ⟨default⟩

variable {lower : Nat → Nat}

section OneList

variable {tabText q proto : Text} {tab : Tab} {page pageSize : Int} {sweep : Sweep}
  {matching sorted : List ConnRecord}

/-- What `List` returns once its section has read the records. -/
theorem list_returns (htab : parseTab tabText = some tab) (hpage : 1 ≤ page)
    (hsize : 1 ≤ pageSize) (hmax : pageSize ≤ 200)
    (hsorted : sortRecords (filterRecords lower q proto sweep.recs) = sorted)
    {trace : List (Event sig)} {outcome : Outcome} :
    (list lower tabText q proto page pageSize).Returns (⟨.list tab, sweep⟩ :: trace) outcome ↔
      pageOf sorted page pageSize = none ∧ trace = [] ∧ outcome = .panicked ∨
      ∃ recs views, pageOf sorted page pageSize = some recs ∧
        (toViews sweep.now recs).Returns trace views ∧ outcome = .page views sorted.length := by
  rw [list_eq htab hpage hsize hmax, act, Program.returns_perform]
  simp only [List.cons.injEq]
  constructor
  · rintro ⟨_, _, ⟨hevent, rfl⟩, hreturns⟩
    cases hevent
    rw [hsorted] at hreturns
    split at hreturns
    next hcut =>
      obtain ⟨rfl, rfl⟩ := Program.returns_ret.mp hreturns
      exact .inl ⟨hcut, rfl, rfl⟩
    next recs hcut =>
      obtain ⟨first, views, _, rfl, hviews, hlast⟩ := Program.returns_bind.mp hreturns
      obtain ⟨rfl, rfl⟩ := Program.returns_ret.mp hlast
      exact .inr ⟨recs, views, hcut, by rwa [List.append_nil], rfl⟩
  · intro houtcome
    refine ⟨sweep, trace, ⟨rfl, rfl⟩, ?_⟩
    rw [hsorted]
    rcases houtcome with ⟨hcut, rfl, rfl⟩ | ⟨recs, views, hcut, hviews, rfl⟩
    · rw [hcut]
      exact Program.returns_ret.mpr ⟨rfl, rfl⟩
    · rw [hcut]
      exact Program.returns_bind.mpr
        ⟨trace, views, [], (List.append_nil _).symm, hviews, Program.returns_ret.mpr ⟨rfl, rfl⟩⟩

theorem list_shows_iff (htab : parseTab tabText = some tab) (hpage : 1 ≤ page)
    (hmaxPage : page < 2 ^ 63) (hsize : 1 ≤ pageSize) (hmax : pageSize ≤ 200)
    (hsorted : sortRecords (filterRecords lower q proto sweep.recs) = sorted)
    (hperm : sorted.Perm matching) (hpairwise : sorted.Pairwise (newerThan · ·))
    (hfits : FitsMemory matching) :
    (∀ trace outcome, (list lower tabText q proto page pageSize).Returns
        (⟨.list tab, sweep⟩ :: trace) outcome →
      ShowsPage matching page pageSize sweep.now outcome) ↔
      StartsInRange matching.length page pageSize := by
  have hfitsAll : ∀ {all : List ConnRecord}, all.Perm matching → FitsMemory all := by
    intro all hall
    rw [FitsMemory, hall.length_eq]
    exact hfits
  have hpageOf := pageOf_eq_iff (hfitsAll hperm) hpage hmaxPage hsize hmax
  rw [← hperm.length_eq, ← hpageOf]
  constructor
  · intro hshows
    by_contra hwrong
    have hempty : ∀ {all : List ConnRecord}, all.Perm matching →
        pageSlice all page pageSize = [] := by
      intro all hall
      refine pageSlice_eq_nil (hfitsAll hall) (Int.not_lt.mp fun hstart => hwrong ?_)
      exact pageOf_eq (hfitsAll hperm) hpage hsize hmax hstart
    cases hcut : pageOf sorted page pageSize with
    | none =>
        obtain ⟨all, views, _, _, houtcome, _⟩ := hshows [] .panicked
          ((list_returns htab hpage hsize hmax hsorted).mpr (.inl ⟨hcut, rfl, rfl⟩))
        cases houtcome
    | some recs =>
        obtain ⟨trace, views, hviews⟩ :=
          Program.exists_returns reply_nonempty (toViews sweep.now recs)
        obtain ⟨all, views', hall, _, houtcome, hpage'⟩ := hshows trace (.page views sorted.length)
          ((list_returns htab hpage hsize hmax hsorted).mpr (.inr ⟨recs, views, hcut, hviews, rfl⟩))
        -- The right page is empty, so what was cut out is empty too, and right.
        obtain ⟨rfl, _⟩ := Outcome.page.inj houtcome
        rw [hempty hall, List.forall₂_nil_right_iff] at hpage'
        have hshown := toViews_shows hviews
        rw [hpage', List.forall₂_nil_left_iff] at hshown
        exact hwrong (by rw [hcut, hshown, hempty hperm])
  · intro hcut trace outcome hreturns
    rcases (list_returns htab hpage hsize hmax hsorted).mp hreturns with ⟨hnone, _, _⟩ |
      ⟨recs, views, hsome, hviews, rfl⟩
    · rw [hcut] at hnone
      cases hnone
    · rw [hcut] at hsome
      cases hsome
      exact ⟨sorted, views, hperm, hpairwise, by rw [hperm.length_eq], toViews_shows hviews⟩

/-- The pages of one reading, put together. -/
theorem pages_flatten (hsize : 1 ≤ pageSize) (hmax : pageSize ≤ 200) (hfits : FitsMemory sorted)
    {n : Nat} (hn : n * pageSize < 2 ^ 63) (hall : sorted.length ≤ n * pageSize.toNat) :
    ∃ pages : List (List ConnRecord),
      (List.range n).map (fun p : Nat => pageOf sorted (p + 1) pageSize) = pages.map some ∧
        pages.flatten = sorted := by
  refine ⟨(List.range n).map fun p : Nat => pageSlice sorted (p + 1) pageSize, ?_, ?_⟩
  · rw [List.map_map]
    apply List.map_congr_left
    intro p hp
    have hlt : p < n := List.mem_range.mp hp
    have hle : (p : Int) * pageSize ≤ n * pageSize :=
      Int.mul_le_mul_of_nonneg_right (by omega) (by omega)
    exact pageOf_eq hfits (by omega) hsize hmax (by rw [Int.add_sub_cancel]; omega)
  · rw [← List.flatMap_def, flatMap_pageSlice hsize, List.take_of_length_le hall]

end OneList

/-- In every state of a tracker, a page of `List` is the right part of the
sorted records that match, without a panic, exactly if the start of the page is
in range; and pages with that start, put together, are all matching records. -/
theorem list_page_iff {size maxAge start : Int} {schedule : List (Action (tracking lower))}
    {c : Config (tracking lower)}
    (hrun : (tracking lower).run ⟨.new size maxAge start, []⟩ schedule = some c)
    {tabText : Text} {tab : Tab} (htab : parseTab tabText = some tab) (q proto : Text)
    {page pageSize : Int} (hpage : 1 ≤ page) (hmaxPage : page < 2 ^ 63) (hsize : 1 ≤ pageSize)
    (hmax : pageSize ≤ 200) {sweep : Sweep} {w' : World}
    (hlist : World.perform (.list tab) c.state sweep = some w')
    (hfits : FitsMemory (w'.tracker.records tab)) :
    ((∀ trace outcome, (list lower tabText q proto page pageSize).Returns
          (⟨.list tab, sweep⟩ :: trace) outcome →
        ShowsPage (filterRecords lower q proto (w'.tracker.records tab)) page pageSize sweep.now
          outcome) ↔
      StartsInRange (filterRecords lower q proto (w'.tracker.records tab)).length page pageSize) ∧
    ∀ n : Nat, n * pageSize < 2 ^ 63 →
      (filterRecords lower q proto (w'.tracker.records tab)).length ≤ n * pageSize.toNat →
      ∃ pages : List (List ConnRecord),
        (List.range n).map (fun p : Nat =>
          pageOf (sortRecords (filterRecords lower q proto sweep.recs)) (p + 1) pageSize) =
          pages.map some ∧
        pages.flatten.Perm (filterRecords lower q proto (w'.tracker.records tab)) := by
  have hc := run_reached hrun
  have heffect : Effect c.state ⟨.list tab, sweep⟩ w' := World.perform_effect hlist
  have hnodup := records_nodup (effect_accounted hc.accounted heffect)
    (effect_kept (run_kept hrun) heffect) tab
  have hread : (filterRecords lower q proto sweep.recs).Perm
      (filterRecords lower q proto (w'.tracker.records tab)) :=
    filterRecords_perm (recs_perm_records hlist)
  have hsub : (filterRecords lower q proto (w'.tracker.records tab)).Sublist
      (w'.tracker.records tab) := filterRecords_sublist _
  have hids := hnodup.sublist (hsub.map ConnRecord.id)
  have hpairwise := sortRecords_pairwise ((hread.map ConnRecord.id).nodup_iff.mpr hids)
  have hperm : (sortRecords (filterRecords lower q proto sweep.recs)).Perm
      (filterRecords lower q proto (w'.tracker.records tab)) :=
    (List.perm_insertionSort _ _).trans hread
  have hfits' : FitsMemory (filterRecords lower q proto (w'.tracker.records tab)) :=
    Nat.lt_of_le_of_lt hsub.length_le hfits
  refine ⟨list_shows_iff htab hpage hmaxPage hsize hmax rfl hperm hpairwise hfits', ?_⟩
  intro n hn hall
  have hfitsSorted : FitsMemory (sortRecords (filterRecords lower q proto sweep.recs)) := by
    rw [FitsMemory, hperm.length_eq]
    exact hfits'
  obtain ⟨pages, hpages, hflatten⟩ := pages_flatten hsize hmax hfitsSorted hn
    (hperm.length_eq ▸ hall)
  exact ⟨pages, hpages, hflatten ▸ hperm⟩

/-- `List` can read the history after two failed dials. -/
theorem twoFailed_listed :
    ∃ c w', (tracking id).run ⟨.new 1 10 0, []⟩ twoFailed = some c ∧
      World.perform (.list .history) c.state lastFailed = some w' := by
  have hlisted : (((tracking id).run ⟨.new 1 10 0, []⟩ twoFailed).bind fun c =>
      World.perform (.list .history) c.state lastFailed).isSome := by decide +kernel
  obtain ⟨w', hlisted⟩ := Option.isSome_iff_exists.mp hlisted
  obtain ⟨c, hrun, hlist⟩ := Option.bind_eq_some_iff.mp hlisted
  exact ⟨c, w', hrun, hlist⟩

theorem twoFailed_firstPage :
    ∃ c w', (tracking id).run ⟨.new 1 10 0, []⟩ twoFailed = some c ∧
      World.perform (.list .history) c.state lastFailed = some w' ∧
      ∀ trace outcome, (list id (str "history") [] [] 1 50).Returns
          (⟨.list .history, lastFailed⟩ :: trace) outcome →
        ShowsPage (filterRecords id [] [] (w'.tracker.records .history)) 1 50 12 outcome := by
  obtain ⟨c, w', hrun, hlist⟩ := twoFailed_listed
  have hfits : FitsMemory (w'.tracker.records .history) := by
    rw [FitsMemory, ← (recs_perm_records hlist).length_eq]
    decide
  have htab : parseTab (str "history") = some .history := by decide
  have hpage : (1 : Int) ≤ 1 := by decide
  have hsize : (1 : Int) ≤ 50 := by decide
  have hpages := list_page_iff hrun htab [] [] hpage (by decide) hsize (by decide) hlist hfits
  exact ⟨c, w', hrun, hlist, hpages.1.mpr (.inl (by decide))⟩

/-- A request for a page whose start wraps around to a negative index. -/
def hugePage (key : Text) : Text :=
  if key = str "tab" then str "history"
  else if key = str "page" then str "46116860184273881"
  else if key = str "page_size" then str "200"
  else []

/-- The request makes `List` cut a slice from a negative index. -/
theorem hugePage_panics :
    ∃ c w', (tracking id).run ⟨.new 1 10 0, []⟩ twoFailed = some c ∧
      World.perform (.list .history) c.state lastFailed = some w' ∧
      (list id (str "history") [] [] 46116860184273881 200).Returns
        [⟨.list .history, lastFailed⟩] .panicked ∧
      (handleConnections id true true hugePage).Returns
        [⟨.list .history, lastFailed⟩] .panicked := by
  obtain ⟨c, w', hrun, hlist⟩ := twoFailed_listed
  have hpanicked : (list id (str "history") [] [] 46116860184273881 200).Returns
      [⟨.list .history, lastFailed⟩] .panicked :=
    (list_returns (by decide) (by decide) (by decide) (by decide) rfl).mpr
      (.inl ⟨by decide +kernel, rfl, rfl⟩)
  have hpage : queryNumber hugePage (str "page") 1 (fun n => 1 ≤ n) = .ok 46116860184273881 := by
    decide +kernel
  have hsize : queryNumber hugePage (str "page_size") 50 (fun n => 1 ≤ n && n ≤ 200) =
      .ok 200 := by
    decide +kernel
  refine ⟨c, w', hrun, hlist, hpanicked, ?_⟩
  rw [handleConnections_eq hpage hsize]
  exact Program.returns_bind.mpr
    ⟨_, .panicked, [], rfl, hpanicked, Program.returns_ret.mpr ⟨rfl, rfl⟩⟩

end SshGate.Tracker
