import Gazetteer.Proofs.Search.Lookups

/-! A target as it is kept in place: its state is taken out, worked on, and put back, and what is
found by both text and place is a list of its own. -/
namespace Gazetteer

/-- The features found by text, those found by the last viewport, and those found by both. -/
structure Kept where
  text : List FeatureId := []
  place : List FeatureId := []
  both : List FeatureId := []
deriving DecidableEq, Repr

/-- The lists are in order, and the third is what the first two share. -/
structure Kept.Sound (k : Kept) : Prop where
  text : k.text.Pairwise (· < ·)
  place : k.place.Pairwise (· < ·)
  both : k.both = Ascending.inter k.text k.place

private theorem Kept.sound_empty : ({} : Kept).Sound := ⟨.nil, .nil, by rw [Ascending.inter]⟩

/-- How far the search has come, with what is kept so far. -/
inductive Stage where
  | pending
  | met (kept : Kept) (index : CellIndex)
  | covered (kept : Kept)
  | closed (kept : Kept)
  | failed
deriving DecidableEq, Repr

/-- A registered partition under search whose stage is changed in place. -/
structure Bucket where
  registration : Registration
  stage : Stage := .pending
deriving DecidableEq, Repr

/-- What is done to a bucket in the course of a search. -/
inductive Deed where
  | retrieve (q : Query) (viewport : Rect Binary64)
  | cover
  | close
  | giveUp
deriving DecidableEq, Repr

def Target.after (t : Target) : Deed → Target
  | .retrieve q v =>
    match t.retrieve q v with
    | .error _ => t
    | .ok s => s
  | .cover => t.cover
  | .close => t.close
  | .giveUp => { t with progress := .failed }

def Kept.found (k : Kept) : Matches := ⟨k.text, k.place⟩

def Stage.progress : Stage → Progress
  | pending => .pending
  | met kept index => .met kept.found index
  | covered kept => .covered kept.found
  | closed kept => .closed kept.found
  | failed => .failed

namespace Bucket

def partition (b : Bucket) : Partition := b.registration.partition

def target (b : Bucket) : Target := ⟨b.registration, b.stage.progress⟩

def kept (b : Bucket) : Kept :=
  match b.stage with
  | .met kept _ => kept
  | .covered kept => kept
  | .closed kept => kept
  | .pending => {}
  | .failed => {}

/-- Takes the stage out of the bucket, which is left as if it were pending. -/
def take : StateM Bucket Stage := modifyGet fun b => (b.stage, { b with stage := .pending })

def put (stage : Stage) : StateM Bucket Unit := modify fun b => { b with stage }

def located (b : Bucket) (q : Query) (viewport : Rect Binary64) (text : List FeatureId)
    (index : CellIndex) : Bucket :=
  let place := Ascending.ofList (q.placeMatches index b.partition.header.scales viewport)
  { b with stage := .met ⟨text, place, Ascending.inter text place⟩ index }

/-- Searches the partition for a viewport. A pending bucket reads both indexes, and stops at the
first that cannot be read. -/
def retrieve (q : Query) (viewport : Rect Binary64) : ExceptT Failure (StateM Bucket) Unit := do
  let stage ← take
  let b ← get
  match stage with
  | .pending =>
    let text ← (b.partition.textFeatures q).mapError Failure.text
    let index ← b.partition.placeIndex.mapError Failure.place
    set (b.located q viewport (Ascending.ofList text) index)
  | .met kept index => set (b.located q viewport kept.text index)
  | finished => put finished

/-- Ends the search of a bucket that a viewport contains, and tells whether this changes
anything. -/
def cover : StateM Bucket Bool := do
  match ← take with
  | .met kept _ =>
    put (.covered kept)
    return true
  | other =>
    put other
    return false

/-- Ends the search of a bucket that was not covered, and tells whether this changes anything. -/
def close : StateM Bucket Bool := do
  match ← take with
  | .pending =>
    put (.closed {})
    return true
  | .met kept _ =>
    put (.closed kept)
    return true
  | finished =>
    put finished
    return false

def giveUp : StateM Bucket Unit := put .failed

/-- The bucket after a deed, be it done or not. -/
def after (b : Bucket) : Deed → Bucket
  | .retrieve q v => ((retrieve q v).run.run b).2
  | .cover => (cover.run b).2
  | .close => (close.run b).2
  | .giveUp => (giveUp.run b).2

variable {b : Bucket} {q : Query} {v : Rect Binary64}

/-- A pending bucket that cannot be opened is left as it was, at whichever index it fails. -/
theorem run_retrieve_pending (r : Registration) (q : Query) (v : Rect Binary64) :
    (retrieve q v).run.run ⟨r, .pending⟩ =
      match (⟨r, .pending⟩ : Target).opened q with
      | .error why => (.error why, ⟨r, .pending⟩)
      | .ok found => (.ok (), (⟨r, .pending⟩ : Bucket).located q v found.1 found.2) := by
  change (liftM ((r.partition.textFeatures q).mapError Failure.text) >>= _ :
    ExceptT Failure (StateM Bucket) Unit).run.run _ =
      match (r.partition.textIndex.mapError Failure.text >>= _ :
        Except Failure (List FeatureId × CellIndex)) with
      | .error why => _
      | .ok found => _
  rw [run_lift_bind, Partition.textFeatures]
  cases r.partition.textIndex with
  | error e => rfl
  | ok trie =>
    change (liftM (r.partition.placeIndex.mapError Failure.place) >>= _ :
      ExceptT Failure (StateM Bucket) Unit).run.run _ =
        match (r.partition.placeIndex.mapError Failure.place >>= _ :
          Except Failure (List FeatureId × CellIndex)) with
        | .error why => _
        | .ok found => _
    rw [run_lift_bind]
    cases r.partition.placeIndex with
    | error e => rfl
    | ok index =>
      have htext : Ascending.ofList (q.handOut trie fun _ => true) = q.textMatches trie := by
        rw [q.handOut_all, Ascending.ofList_of_pairwise (q.pairwise_textMatches trie)]
      rw [htext]
      rfl

/-- A retrieval leaves a finished bucket as it is. -/
theorem run_retrieve_of_isFinished (h : b.target.isFinished = true) (q : Query)
    (v : Rect Binary64) : (retrieve q v).run.run b = (.ok (), b) := by
  obtain ⟨r, stage⟩ := b
  cases stage with
  | pending | met => cases h
  | covered | closed | failed => rfl

/-- All that a retrieval can do: nothing to a finished bucket, nothing to one whose indexes cannot
be read, and a lookup in the viewport in any other. -/
theorem retrieve_cases (b : Bucket) (q : Query) (v : Rect Binary64) :
    (b.target.isFinished = true ∧ (retrieve q v).run.run b = (.ok (), b)) ∨
      (∃ why, b.target.progress = .pending ∧ b.target.opened q = .error why ∧
        (retrieve q v).run.run b = (.error why, b)) ∨
      ∃ text index, b.target.Open q text index ∧
        (retrieve q v).run.run b = (.ok (), b.located q v text index) := by
  obtain ⟨r, stage⟩ := b
  cases stage with
  | pending =>
    rw [run_retrieve_pending]
    cases ho : (⟨r, .pending⟩ : Target).opened q with
    | error why => exact .inr (.inl ⟨why, rfl, ho, rfl⟩)
    | ok found => exact .inr (.inr ⟨found.1, found.2, .inl ⟨rfl, ho⟩, rfl⟩)
  | met kept index => exact .inr (.inr ⟨kept.text, index, .inr ⟨kept.place, rfl⟩, rfl⟩)
  | covered | closed | failed => exact .inl ⟨rfl, rfl⟩

private theorem target_cover (b : Bucket) : (cover.run b).2.target = b.target.cover := by
  obtain ⟨r, stage⟩ := b
  cases stage <;> rfl

private theorem target_close (b : Bucket) : (close.run b).2.target = b.target.close := by
  obtain ⟨r, stage⟩ := b
  cases stage <;> rfl

/-- Covering says truly whether it changed the bucket. -/
theorem cover_eq_false_iff (b : Bucket) : (cover.run b).1 = false ↔ (cover.run b).2 = b := by
  obtain ⟨r, stage⟩ := b
  cases stage with
  | met kept index => exact iff_of_false (fun h => by cases h) (fun h => by cases h)
  | pending | covered | closed | failed => exact iff_of_true rfl rfl

/-- And so does closing. -/
theorem close_eq_false_iff (b : Bucket) : (close.run b).1 = false ↔ (close.run b).2 = b := by
  obtain ⟨r, stage⟩ := b
  cases stage with
  | pending | met => exact iff_of_false (fun h => by cases h) (fun h => by cases h)
  | covered | closed | failed => exact iff_of_true rfl rfl

private theorem kept_cover (b : Bucket) : (cover.run b).2.kept = b.kept := by
  obtain ⟨r, stage⟩ := b
  cases stage <;> rfl

private theorem kept_close (b : Bucket) : (close.run b).2.kept = b.kept := by
  obtain ⟨r, stage⟩ := b
  cases stage <;> rfl

private theorem found_target (b : Bucket) : b.target.found = b.kept.found := by
  obtain ⟨r, stage⟩ := b
  cases stage <;> rfl

private theorem target_after (b : Bucket) (deed : Deed) :
    (b.after deed).target = b.target.after deed := by
  cases deed with
  | retrieve q v =>
    rw [after, Target.after]
    rcases b.retrieve_cases q v with ⟨hfinished, hrun⟩ | ⟨why, hp, ho, hrun⟩ | ⟨text, index, ht, hrun⟩
    · rw [hrun, Target.retrieve_of_isFinished hfinished]
    · rw [hrun, Target.retrieve_of_error hp ho]
    · rw [hrun, Target.retrieve_of_open ht]
      rfl
  | cover => exact target_cover b
  | close => exact target_close b
  | giveUp => rfl

private theorem sound_located {text : List FeatureId} (htext : text.Pairwise (· < ·)) (b : Bucket)
    (q : Query) (v : Rect Binary64) (index : CellIndex) : (b.located q v text index).kept.Sound :=
  ⟨htext, Ascending.pairwise_ofList _, rfl⟩

/-- A deed leaves what is kept sound. -/
theorem sound_after {b : Bucket} (h : b.kept.Sound) (deed : Deed) : (b.after deed).kept.Sound := by
  cases deed with
  | retrieve q v =>
    rw [after]
    rcases b.retrieve_cases q v with ⟨-, hrun⟩ | ⟨why, -, -, hrun⟩ | ⟨text, index, ht, hrun⟩ <;>
      rw [hrun]
    · exact h
    · exact h
    · exact sound_located (Target.pairwise_of_open ht (b.found_target ▸ h.text)) b q v index
  | cover => exact b.kept_cover.symm ▸ h
  | close => exact b.kept_close.symm ▸ h
  | giveUp => exact Kept.sound_empty

/-- What a bucket keeps stays sound through any deeds. -/
theorem sound_foldl_after {b : Bucket} (h : b.kept.Sound) (deeds : List Deed) :
    (deeds.foldl after b).kept.Sound := by
  induction deeds generalizing b with
  | nil => exact h
  | cons deed deeds ih => exact ih (sound_after h deed)

/-- And the bucket goes where its target goes. -/
theorem target_foldl_after (b : Bucket) (deeds : List Deed) :
    (deeds.foldl after b).target = deeds.foldl Target.after b.target :=
  (List.foldl_hom target fun b deed => (target_after b deed).symm).symm

/-- Whatever was done to a bucket, and however unordered and repetitive the indexes of its partition
are, its lists are strictly ascending, the third has what both of the others have, and all are those
of the target after the same deeds. A retrieval succeeds on a finished bucket and changes nothing,
and one that fails leaves the bucket as it was. -/
theorem orderly_of_deeds (r : Registration) (deeds : List Deed) :
    let b := deeds.foldl after ⟨r, .pending⟩
    let t := deeds.foldl Target.after ⟨r, .pending⟩
    b.target = t ∧ b.kept = ⟨t.found.text, t.found.place, t.found.both⟩ ∧
      b.kept.text.Pairwise (· < ·) ∧ b.kept.place.Pairwise (· < ·) ∧
      b.kept.both.Pairwise (· < ·) ∧
      (∀ id, id ∈ b.kept.both ↔ id ∈ b.kept.text ∧ id ∈ b.kept.place) ∧
      ∀ q v, (t.isFinished = true → t.retrieve q v = .ok t ∧ (retrieve q v).run.run b = (.ok (), b)) ∧
        ∀ why b', (retrieve q v).run.run b = (.error why, b') →
          b' = b ∧ t.retrieve q v = .error why := by
  intro b t
  have htarget : b.target = t := target_foldl_after ⟨r, .pending⟩ deeds
  have hsound : b.kept.Sound := sound_foldl_after (b := ⟨r, .pending⟩) Kept.sound_empty deeds
  have hfound : t.found = b.kept.found := by rw [← htarget, found_target]
  refine ⟨htarget, ?_, hsound.text, hsound.place, ?_, ?_, fun q v => ⟨fun hfinished => ?_, ?_⟩⟩
  · rw [Matches.both, hfound]
    change b.kept = ⟨b.kept.text, b.kept.place, Ascending.inter b.kept.text b.kept.place⟩
    rw [← hsound.both]
  · rw [hsound.both]
    exact Ascending.pairwise_inter hsound.text _
  · intro id
    rw [hsound.both, Ascending.mem_inter hsound.text hsound.place]
  · exact ⟨Target.retrieve_of_isFinished hfinished q v,
      run_retrieve_of_isFinished (htarget.symm ▸ hfinished) q v⟩
  · intro why b' h
    rw [← htarget]
    rcases b.retrieve_cases q v with ⟨-, hrun⟩ | ⟨why', hp, ho, hrun⟩ | ⟨text, index, -, hrun⟩ <;>
      rw [hrun] at h <;> cases h
    exact ⟨rfl, Target.retrieve_of_error hp ho v⟩

/-- The inn is looked at, covered, and looked at again; another has a place index that cannot be
read. -/
theorem orderly_inns :
    let q : Query := { words := [["i"]], scale := 1 }
    let v : Rect Binary64 := .ofCorners ⟨0, -4⟩ ⟨2, 4⟩
    let deeds := [Deed.retrieve q v, .cover, .close]
    let r : Registration := ⟨⟨"Town", 1⟩, Search.inn⟩
    let broken : Registration := ⟨⟨"Town", 2⟩, Search.inn.setSection Partition.placeTag [193]⟩
    (deeds.foldl after ⟨r, .pending⟩).stage = .covered ⟨[0], [0], [0]⟩ ∧
      (∀ w, (retrieve q w).run.run (deeds.foldl after ⟨r, .pending⟩) =
        (.ok (), deeds.foldl after ⟨r, .pending⟩)) ∧
      ∃ b, (retrieve q v).run.run ⟨broken, .pending⟩ = (.error (.place (.placeIndex .unreadable)), b) ∧
        b = ⟨broken, .pending⟩ := by
  intro q v deeds r broken
  have hstage : (deeds.foldl after ⟨r, .pending⟩).stage = .covered ⟨[0], [0], [0]⟩ := by
    decide +kernel
  have hfinished : (deeds.foldl Target.after ⟨r, .pending⟩).isFinished = true := by decide +kernel
  have hfailed : ((retrieve q v).run.run ⟨broken, .pending⟩).1 =
      .error (.place (.placeIndex .unreadable)) := by decide +kernel
  have hcovered := (orderly_of_deeds r deeds).2.2.2.2.2.2
  have hbroken := (orderly_of_deeds broken []).2.2.2.2.2.2 q v
  exact ⟨hstage, fun w => ((hcovered q w).1 hfinished).2, _, Prod.ext hfailed rfl,
    (hbroken.2 _ _ (Prod.ext hfailed rfl)).1⟩

end Bucket
end Gazetteer
