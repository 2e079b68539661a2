import Gazetteer.Proofs.Query.NameMatches
import Gazetteer.Proofs.Text.Beginnings

/-! Names as they are typed. A beginning of a name that has a word finds the feature. The last word
of the beginning may go on, and the words before it are complete. -/
namespace Gazetteer
namespace Query
variable {f : Feature} {l : Language} {name : FeatureName} {text : String}
  {rest : List Char}

/-- After a delimiter all words are complete. -/
theorem ofText_of_delimiter (h : Text.endsWithDelimiter text = true) (ls : List Language) :
    (ofText text ls).words = (Text.words text).map ([·]) ∧ (ofText text ls).beginnings = [] := by
  simp [ofText, h]

/-- Without one the last word may go on. -/
theorem ofText_of_word {complete : List String} {last : String}
    (h : Text.endsWithDelimiter text = false) (hwords : Text.words text = complete ++ [last])
    (ls : List Language) :
    (ofText text ls).words = complete.map ([·]) ∧ (ofText text ls).beginnings = [last] := by
  simp [ofText, h, hwords]

private theorem allows_ofText (text : String) (l : Language) :
    (ofText text [l]).allows l = true := by
  have hmem : l ∈ Language.ordered [l] := by simp [Language.ordered, Language.mem_all]
  simp [allows, ofText, hmem]

/-- A beginning of a name matches, unless it breaks off at a capital sigma inside a word. -/
theorem matches_of_beginning (hname : name ∈ f.names)
    (hlanguage : Language.ofIndex? name.language = some l)
    (htext : name.text.toList = text.toList ++ rest) (hwords : Text.words text ≠ [])
    (hsigma : ¬ Text.BreaksOff text.toList rest) : (ofText text [l]).Matches f := by
  have hknows {word : String} (h : word ∈ Text.words name.text) : (ofText text [l]).Knows f word :=
    ⟨l, allows_ofText text l, name, hname, hlanguage, h⟩
  rcases Text.words_of_beginning htext hsigma with
    ⟨hends, more, hmore⟩ | ⟨hends, hnone | ⟨complete, last, word, more, htyped, hwhole, hlast⟩⟩
  · obtain ⟨hcomplete, hbeginnings⟩ := ofText_of_delimiter hends [l]
    refine ⟨?_, fun forms hforms => ?_, fun h => absurd hbeginnings h⟩
    · simpa [isEmpty, hcomplete, hbeginnings] using hwords
    · rw [hcomplete] at hforms
      obtain ⟨typed, htyped, rfl⟩ := List.mem_map.mp hforms
      exact ⟨typed, List.mem_singleton_self typed, hknows (hmore ▸ List.mem_append_left more htyped)⟩
  · exact absurd hnone hwords
  · obtain ⟨hcomplete, hbeginnings⟩ := ofText_of_word hends htyped [l]
    refine ⟨?_, fun forms hforms => ?_, fun _ => ⟨last, ?_, word, hknows ?_, hlast⟩⟩
    · simp [isEmpty, hbeginnings]
    · rw [hcomplete] at hforms
      obtain ⟨typed, htyped, rfl⟩ := List.mem_map.mp hforms
      exact ⟨typed, List.mem_singleton_self typed, hknows (hwhole ▸ List.mem_append_left _ htyped)⟩
    · rw [hbeginnings]
      exact List.mem_singleton_self last
    · rw [hwhole]
      exact List.mem_append_right complete List.mem_cons_self

end Query

variable {d : Draft} {p : Partition} {f : Feature} {name : FeatureName} {l : Language} {text : String}
  {rest : List Char}

/-- Every beginning of a name that has a word finds the feature in a built partition, unless it
breaks off at a capital sigma inside a word of the name. -/
theorem mem_textMatches_of_beginning (hp : d.finish = .ok p) (hcount : d.features.length < 2 ^ 32)
    (hnodes : ∀ t, d.textIndex = .ok t → t.nodes.size < 2 ^ 32) (id : FeatureId)
    (hfeature : d.features[id.toNat]? = some f) (hname : name ∈ f.names)
    (hlanguage : Language.ofIndex? name.language = some l)
    (htext : name.text.toList = text.toList ++ rest) (hwords : Text.words text ≠ [])
    (hsigma : ¬ Text.BreaksOff text.toList rest) :
    ∃ t, p.textIndex = .ok t ∧ id ∈ (Query.ofText text [l]).textMatches t := by
  obtain ⟨t, ht, hforest, hvalues⟩ := Draft.textIndex_built hp hcount hnodes
  exact ⟨t, ht, (Query.mem_textMatches_of_values hforest hvalues).mpr
    ⟨f, hfeature, Query.matches_of_beginning hname hlanguage htext hwords hsigma⟩⟩

/-- The inn is found by its first word and the first letter of the second. -/
theorem mem_textMatches_of_beginning_inn :
    ∃ p t, Draft.inn.finish = .ok p ∧ p.textIndex = .ok t ∧
      0 ∈ (Query.ofText "Old I" [.en]).textMatches t := by
  obtain ⟨p, hp⟩ := Draft.finish_inn
  have hsigma : ¬ Text.BreaksOff "Old I".toList "nn".toList := by
    rintro ⟨before, after, hcs, -⟩
    have hmem : 'Σ' ∈ "Old I".toList := by simp [hcs]
    exact absurd hmem (by decide)
  obtain ⟨t, ht, hmem⟩ := mem_textMatches_of_beginning hp (by decide)
    (Draft.nodes_lt_of_all (d := .inn) (by decide +kernel)) 0 rfl (.head _) (l := .en) rfl
    (by decide : "Old Inn".toList = "Old I".toList ++ "nn".toList) (by decide +kernel) hsigma
  exact ⟨p, t, hp, ht, hmem⟩

/-- A town with a house named after Odysseus. -/
def Draft.house : Draft := { name := "Town", features := [.poi ⟨0, 0⟩ "ΟΔΥΣΣΕΑΣ" .el] }

private theorem Draft.finish_house : ∃ p, house.finish = .ok p :=
  exists_ok_of_toBool (by decide +kernel)

/-- The first four letters of the name end in a capital sigma, and do not find the house. -/
theorem not_mem_textMatches_of_sigma :
    ¬ ∀ (d : Draft) (p : Partition) (f : Feature) (id : FeatureId) (name : FeatureName)
      (l : Language) (text : String) (rest : List Char), d.finish = .ok p →
      d.features.length < 2 ^ 32 → (∀ t, d.textIndex = .ok t → t.nodes.size < 2 ^ 32) →
      d.features[id.toNat]? = some f → name ∈ f.names →
      Language.ofIndex? name.language = some l → name.text.toList = text.toList ++ rest →
      Text.words text ≠ [] →
      ∃ t, p.textIndex = .ok t ∧ id ∈ (Query.ofText text [l]).textMatches t := by
  intro hclaim
  obtain ⟨p, hp⟩ := Draft.finish_house
  have hnodes : ∀ t, Draft.house.textIndex = .ok t → t.nodes.size < 2 ^ 32 :=
    Draft.nodes_lt_of_all (by decide +kernel)
  obtain ⟨t, ht, hmem⟩ := hclaim .house p _ 0 _ .el "ΟΔΥΣ" "ΣΕΑΣ".toList hp (by decide) hnodes rfl
    (.head _) rfl (by decide +kernel) (by decide +kernel)
  obtain ⟨t', ht', hforest, hvalues⟩ := Draft.textIndex_built hp (by decide) hnodes
  cases ht.symm.trans ht'
  obtain ⟨f, hf, -, -, hbeginnings⟩ := (Query.mem_textMatches_of_values hforest hvalues).mp hmem
  cases hf
  obtain ⟨form, hform, word, ⟨l, -, name, hname, -, hword⟩, hprefix⟩ :=
    hbeginnings (by decide +kernel)
  cases List.mem_singleton.mp hname
  rw [show (Query.ofText "ΟΔΥΣ" [.el]).beginnings = ["οδυς"] by decide +kernel,
    List.mem_singleton] at hform
  rw [show Text.words "ΟΔΥΣΣΕΑΣ" = ["οδυσσεας"] by decide +kernel, List.mem_singleton] at hword
  rw [hform, hword] at hprefix
  exact absurd hprefix (by decide +kernel)

end Gazetteer
