import RootSign.Soundness

namespace RootSign

open RootSign.Lib RootSign.Python

/-!
# The tail hash commits to the history

If SHA-256 does not collide on the canonical texts at hand, two `VALID` files whose last
records go by the same hash hold the same records, field by field (`tail_commits`).

* `ScalarFields` — the canonical fields are strings or integers;
* `inOrder` — the records by sequence number;
* `CollisionFree` — no two different canonical texts of the given records share a digest.
-/

/-! ### The assumptions -/

/-- A string, an integer, or nothing. -/
def ScalarOrNull (v : Json) : Prop := v = .null ∨ v.IsScalar

/-- The canonical fields hold strings or integers; the two optional hashes may be missing. -/
structure ScalarFields (r : Dict) : Prop where
  tool_name : (r.get "tool_name").IsScalar
  input_hash : (r.get "input_hash").IsScalar
  output_hash : ScalarOrNull (r.get "output_hash")
  prev_action_hash : ScalarOrNull (r.get "prev_action_hash")
  timestamp : (r.get "timestamp").IsScalar
  sequence_number : (r.get "sequence_number").IsScalar

/-- The records by sequence number, as the verifier walks them. -/
def inOrder (records : List Dict) : List Dict :=
  match sortRecords records with
  | .ok sorted => sorted.map Prod.snd
  | .error _ => []

/-- No two different canonical texts of the records share a digest. -/
def CollisionFree (rt : Runtime) (records : List Dict) : Prop :=
  ∀ r ∈ records, ∀ s ∈ records,
    rt.sha256 (Canonical.ofDict rt r).serialized = rt.sha256 (Canonical.ofDict rt s).serialized →
      (Canonical.ofDict rt r).serialized = (Canonical.ofDict rt s).serialized

/-! ### One record -/

variable {rt : Runtime}

/-- The empty text in the place of `None` is a scalar. -/
theorem orEmpty_isScalar {v : Json} (h : ScalarOrNull v) : v.orEmpty.IsScalar := by
  unfold Json.orEmpty
  split
  case isTrue htruthy =>
    rcases h with rfl | h
    · simp [Json.truthy] at htruthy
    · exact h
  case isFalse => trivial

/-- The canonical fields of such a record are scalars. -/
theorem ScalarFields.scalar {r : Dict} (h : ScalarFields r) : (Canonical.ofDict rt r).Scalar where
  tool_name := h.tool_name
  input_hash := h.input_hash
  output_hash := orEmpty_isScalar h.output_hash
  prev_action_hash := orEmpty_isScalar h.prev_action_hash
  timestamp := h.timestamp
  sequence_number := h.sequence_number

/-- `v or ""` determines `v or None`. -/
theorem orNone_eq_of_orEmpty_eq {v w : Json} (h : v.orEmpty = w.orEmpty) :
    v.orNone = w.orNone := by
  have hempty : ∀ {u : Json}, u.truthy = true → u ≠ .str "" := by
    rintro u hu rfl
    exact absurd hu (by decide)
  unfold Json.orEmpty at h
  unfold Json.orNone
  split at h <;> split at h
  · rename_i hv hw
    rw [if_pos hv, if_pos hw, h]
  · rename_i hv _
    exact absurd h (hempty hv)
  · rename_i _ hw
    exact absurd h.symm (hempty hw)
  · rename_i hv hw
    rw [if_neg hv, if_neg hw]

/-- Intact records with the same hash agree on every canonical field. -/
theorem canonical_eq_of_self_hash_eq {r s : Dict} (hr : RecordIntact rt r)
    (hs : RecordIntact rt s) (hrs : ScalarFields r) (hss : ScalarFields s)
    (hfree : rt.sha256 (Canonical.ofDict rt r).serialized =
        rt.sha256 (Canonical.ofDict rt s).serialized →
      (Canonical.ofDict rt r).serialized = (Canonical.ofDict rt s).serialized)
    (h : r.get "self_hash" = s.get "self_hash") :
    Canonical.ofDict rt r = Canonical.ofDict rt s := by
  obtain ⟨digest, hself, heq⟩ := hr.self_hash
  obtain ⟨digest', hself', heq'⟩ := hs.self_hash
  obtain ⟨-, rfl⟩ := computeActionSelfHash_ok hself
  obtain ⟨-, rfl⟩ := computeActionSelfHash_ok hself'
  rw [heq, heq', Json.str.injEq] at h
  exact Canonical.serialized_inj hrs.scalar hss.scalar (hfree h)

/-! ### Two files -/

/-- A `VALID` file's records, in order, are intact and linked. -/
theorem inOrder_of_valid {lines : List Dict} (hne : lines.filter isActionLine ≠ [])
    (h : ∃ res, verifySessionLocal rt (objectLines lines) = .ok res ∧ res.verdict = .VALID) :
    (inOrder (lines.filter isActionLine)).Perm (lines.filter isActionLine) ∧
      (∀ r ∈ inOrder (lines.filter isActionLine), RecordIntact rt r) ∧
      Linked (inOrder (lines.filter isActionLine)) := by
  obtain ⟨session_id, hverify⟩ := verifySessionLocal_of_actions rt hne
  rw [hverify] at h
  obtain ⟨sorted, hintact⟩ := (verifyRecords_valid_iff _ _ _).mp h
  have horder : inOrder (lines.filter isActionLine) = sorted.map Prod.snd := by
    rw [inOrder, hintact.sort]
  rw [horder]
  exact ⟨sortRecords_snd hintact.sort, hintact.intact, hintact.linked⟩

/-- **The tail hash commits to the whole history.**  Two `VALID` files with action records
    whose highest-numbered records go by the same hash hold the same number of action
    records, and agree, record by record, on every canonical field. -/
theorem tail_commits (rt : Runtime) (f g : List Dict)
    (hf : ∃ res, verifySessionLocal rt (objectLines f) = .ok res ∧ res.verdict = .VALID)
    (hg : ∃ res, verifySessionLocal rt (objectLines g) = .ok res ∧ res.verdict = .VALID)
    (hfne : f.filter isActionLine ≠ []) (hgne : g.filter isActionLine ≠ [])
    (hfields : ∀ r ∈ f.filter isActionLine ++ g.filter isActionLine, ScalarFields r)
    (hfree : CollisionFree rt (f.filter isActionLine ++ g.filter isActionLine))
    (htail : (inOrder (f.filter isActionLine)).getLast?.map (fun r => r.get "self_hash") =
      (inOrder (g.filter isActionLine)).getLast?.map (fun r => r.get "self_hash")) :
    (f.filter isActionLine).length = (g.filter isActionLine).length ∧
      ∀ p ∈ (inOrder (f.filter isActionLine)).zip (inOrder (g.filter isActionLine)),
        rt.pyStr (p.1.get "action_id") = rt.pyStr (p.2.get "action_id") ∧
        rt.pyStr (p.1.get "session_id") = rt.pyStr (p.2.get "session_id") ∧
        p.1.get "tool_name" = p.2.get "tool_name" ∧
        p.1.get "input_hash" = p.2.get "input_hash" ∧
        p.1.get "timestamp" = p.2.get "timestamp" ∧
        p.1.get "sequence_number" = p.2.get "sequence_number" ∧
        (p.1.get "output_hash").orEmpty = (p.2.get "output_hash").orEmpty ∧
        (p.1.get "prev_action_hash").orEmpty = (p.2.get "prev_action_hash").orEmpty := by
  obtain ⟨hfperm, hfintact, hflinked⟩ := inOrder_of_valid hfne hf
  obtain ⟨hgperm, hgintact, hglinked⟩ := inOrder_of_valid hgne hg
  -- Sorting permutes the records, so it leaves neither file empty.
  have hne : ∀ {l m : List Dict}, l.Perm m → m ≠ [] → l ≠ [] := by
    rintro l m hperm hm rfl
    exact hm hperm.nil_eq.symm
  have hdigest : ∀ {r : Dict}, RecordIntact rt r → r.get "self_hash" ≠ .null := by
    intro r hr hnull
    obtain ⟨digest, heq, -⟩ := hr.exists_digest
    rw [hnull] at heq
    cases heq
  -- The backward induction is the library's: equal hashes have equal contents, and the content
  -- names the predecessor's hash.
  have hmap : (inOrder (f.filter isActionLine)).map (Canonical.ofDict rt) =
      (inOrder (g.filter isActionLine)).map (Canonical.ofDict rt) := by
    refine linkedFrom_map_eq (fun r hr s hs hself => ?_) (fun r hr => hdigest (hfintact r hr))
      (fun s hs => hdigest (hgintact s hs)) hflinked hglinked ?_
    · have hr' : r ∈ f.filter isActionLine ++ g.filter isActionLine :=
        List.mem_append_left _ (hfperm.mem_iff.mp hr)
      have hs' : s ∈ f.filter isActionLine ++ g.filter isActionLine :=
        List.mem_append_right _ (hgperm.mem_iff.mp hs)
      -- This is where the hash has to be free of collisions, on these records only.
      have heq := canonical_eq_of_self_hash_eq (hfintact r hr) (hgintact s hs) (hfields r hr')
        (hfields s hs') (hfree r hr' s hs') hself
      exact ⟨heq, orNone_eq_of_orEmpty_eq (congrArg Canonical.prev_action_hash heq)⟩
    · rw [lastSelf_eq_getLast (hne hfperm hfne), lastSelf_eq_getLast (hne hgperm hgne)]
      rw [List.getLast?_eq_some_getLast (hne hfperm hfne),
        List.getLast?_eq_some_getLast (hne hgperm hgne)] at htail
      exact Option.some.inj htail
  constructor
  · have hlen := congrArg List.length hmap
    rwa [List.length_map, List.length_map, hfperm.length_eq, hgperm.length_eq] at hlen
  · intro p hp
    obtain ⟨i, hi, rfl⟩ := List.mem_iff_getElem.mp hp
    rw [List.length_zip] at hi
    have heq : Canonical.ofDict rt (inOrder (f.filter isActionLine))[i] =
        Canonical.ofDict rt (inOrder (g.filter isActionLine))[i] := by
      have hget := congrArg (fun l => l[i]?) hmap
      simp only [List.getElem?_map] at hget
      rw [List.getElem?_eq_getElem (by omega), List.getElem?_eq_getElem (by omega)] at hget
      exact Option.some.inj hget
    rw [List.getElem_zip]
    exact ⟨congrArg Canonical.action_id heq, congrArg Canonical.session_id heq,
      congrArg Canonical.tool_name heq, congrArg Canonical.input_hash heq,
      congrArg Canonical.timestamp heq, congrArg Canonical.sequence_number heq,
      congrArg Canonical.output_hash heq, congrArg Canonical.prev_action_hash heq⟩

/-! ### Two records in a chain -/

/-- A record under the hash of its own fields. -/
def chainedRecord (rt : Runtime) (n : ℤ) (output_hash prev_action_hash : Json) : Dict :=
  Dict.ofFields
    [("event_type", .str "ACTION_RECORD"), ("action_id", .str "a"), ("session_id", .str "s"),
     ("tool_name", .str "t"), ("input_hash", .str "i"), ("output_hash", output_hash),
     ("prev_action_hash", prev_action_hash), ("timestamp", .str "2026"),
     ("sequence_number", .int n),
     ("self_hash", .str (Canonical.selfHash rt
       { action_id := "a", session_id := "s", tool_name := .str "t", input_hash := .str "i",
         output_hash := output_hash.orEmpty, prev_action_hash := prev_action_hash.orEmpty,
         timestamp := .str "2026", sequence_number := .int n }))]

section

variable (n : ℤ) (output_hash prev_action_hash : Json)

theorem chainedRecord_ofDict :
    Canonical.ofDict rt (chainedRecord rt n output_hash prev_action_hash) =
      { action_id := "a", session_id := "s", tool_name := .str "t", input_hash := .str "i",
        output_hash := output_hash.orEmpty, prev_action_hash := prev_action_hash.orEmpty,
        timestamp := .str "2026", sequence_number := .int n } := by
  simp [Canonical.ofDict, chainedRecord, Dict.get_ofFields, List.lookup_cons]

/-- The record of the example has every canonical field. -/
theorem chainedRecord_fields :
    HasCanonicalFields (chainedRecord rt n output_hash prev_action_hash) := by
  constructor <;> simp [chainedRecord, Dict.has_ofFields, List.lookup_cons]

/-- The record of the example passes its own checks. -/
theorem chainedRecord_intact :
    RecordIntact rt (chainedRecord rt n output_hash prev_action_hash) := by
  refine ⟨⟨_, computeActionSelfHash_eq _ (chainedRecord_fields _ _ _), ?_⟩, ?_, ?_⟩
  · rw [chainedRecord_ofDict]
    simp [chainedRecord, Dict.get_ofFields, List.lookup_cons]
  · simp [chainedRecord, Dict.get_ofFields, List.lookup_cons]
  · simp [chainedRecord, Dict.get_ofFields, List.lookup_cons]

theorem chainedRecord_get_sequence :
    (chainedRecord rt n output_hash prev_action_hash).get "sequence_number" = .int n := by
  simp [chainedRecord, Dict.get_ofFields, List.lookup_cons]

theorem chainedRecord_get_prev :
    (chainedRecord rt n output_hash prev_action_hash).get "prev_action_hash" =
      prev_action_hash := by
  simp [chainedRecord, Dict.get_ofFields, List.lookup_cons]

theorem chainedRecord_get_self :
    (chainedRecord rt n output_hash prev_action_hash).get "self_hash" =
      .str (Canonical.selfHash rt
        (Canonical.ofDict rt (chainedRecord rt n output_hash prev_action_hash))) := by
  rw [chainedRecord_ofDict]
  simp [chainedRecord, Dict.get_ofFields, List.lookup_cons]

theorem chainedRecord_isActionLine :
    isActionLine (chainedRecord rt n output_hash prev_action_hash) = true := by
  simp [isActionLine, chainedRecord, Dict.getD_ofFields, Json.pyEq]

end

/-- Records 1 and 2 of a session; the second one names the first. -/
def chainedRecords (rt : Runtime) (output_hash : Json) : List Dict :=
  [chainedRecord rt 1 output_hash .null,
    chainedRecord rt 2 (.str "o") ((chainedRecord rt 1 output_hash .null).get "self_hash")]

theorem chainedRecords_isActionLine (output_hash : Json) :
    (chainedRecords rt output_hash).filter isActionLine = chainedRecords rt output_hash := by
  simp [chainedRecords, chainedRecord_isActionLine]

/-- The records of the example are in order. -/
theorem sortRecords_chainedRecords (output_hash : Json) :
    sortRecords (chainedRecords rt output_hash) =
      .ok ((chainedRecords rt output_hash).map fun r => (r.get "sequence_number", r)) := by
  unfold chainedRecords
  rw [sortRecords, List.mapM_cons, List.mapM_cons,
    Dict.item_of_has (chainedRecord_fields _ _ _).sequence_number,
    Dict.item_of_has (chainedRecord_fields _ _ _).sequence_number]
  simp only [List.map_cons, List.map_nil, chainedRecord_get_sequence]
  rfl

/-- They pass every check. -/
theorem chainedRecords_intact (output_hash : Json) :
    IntactUpToNumbers rt (chainedRecords rt output_hash)
      ((chainedRecords rt output_hash).map fun r => (r.get "sequence_number", r)) := by
  refine ⟨sortRecords_chainedRecords output_hash, ?_, ?_, ?_, ?_⟩
  · simp [chainedRecords, chainedRecord_get_sequence, firstDuplicate]
  · rw [missingRanges_eq_nil_iff]
    rintro k hk ⟨m, hm, hlt⟩
    simp [chainedRecords, chainedRecord_get_sequence, presentSet, Json.asInt] at hm ⊢
    omega
  · simp [chainedRecords, chainedRecord_intact]
  · have hnull : Json.null.orNone = .null := rfl
    have hself : ∀ s, (Json.str (rt.sha256 s)).orNone = .str (rt.sha256 s) := fun s =>
      if_pos (rt.truthy_sha256 s)
    simp [chainedRecords, Linked, LinkedFrom, chainedRecord_get_prev, chainedRecord_get_self,
      Canonical.selfHash, hnull, hself]

/-- The file of the example is VALID whatever the output hash is. -/
theorem chainedRecords_valid (rt : Runtime) (output_hash : Json) :
    ∃ res, verifySessionLocal rt (objectLines (chainedRecords rt output_hash)) = .ok res ∧
      res.verdict = .VALID := by
  have hactions := @chainedRecords_isActionLine rt output_hash
  have hne : (chainedRecords rt output_hash).filter isActionLine ≠ [] := by
    rw [hactions]
    exact List.cons_ne_nil _ _
  obtain ⟨session_id, hverify⟩ := verifySessionLocal_of_actions rt hne
  rw [hverify, hactions]
  exact (verifyRecords_valid_iff _ _ _).mpr ⟨_, chainedRecords_intact output_hash⟩

theorem inOrder_chainedRecords (output_hash : Json) :
    inOrder (chainedRecords rt output_hash) = chainedRecords rt output_hash := by
  rw [inOrder, sortRecords_chainedRecords]
  simp [Function.comp_def]

/-- `null` and the empty text are hashed alike, so the two files have the same canonical texts. -/
theorem chainedRecords_ofDict :
    (chainedRecords rt (.str "")).map (Canonical.ofDict rt) =
      (chainedRecords rt .null).map (Canonical.ofDict rt) := by
  have hfirst : Canonical.ofDict rt (chainedRecord rt 1 (.str "") .null) =
      Canonical.ofDict rt (chainedRecord rt 1 .null .null) := by
    rw [chainedRecord_ofDict, chainedRecord_ofDict]
    rfl
  have hself : (chainedRecord rt 1 (.str "") .null).get "self_hash" =
      (chainedRecord rt 1 .null .null).get "self_hash" := by
    rw [chainedRecord_get_self, chainedRecord_get_self, hfirst]
  simp [chainedRecords, hfirst, hself]

/-- The two records do not share a digest. -/
theorem collisionFree_chainedRecords :
    CollisionFree exampleRuntime
      (chainedRecords exampleRuntime .null ++ chainedRecords exampleRuntime (.str "")) := by
  -- each of the four has one of two canonical texts
  have htext : ∀ r ∈ chainedRecords exampleRuntime .null ++ chainedRecords exampleRuntime (.str ""),
      Canonical.ofDict exampleRuntime r ∈
        (chainedRecords exampleRuntime .null).map (Canonical.ofDict exampleRuntime) := by
    intro r hr
    rcases List.mem_append.mp hr with hr | hr
    · exact List.mem_map_of_mem hr
    · rw [← chainedRecords_ofDict]
      exact List.mem_map_of_mem hr
  have hfree : ∀ c ∈ (chainedRecords exampleRuntime .null).map (Canonical.ofDict exampleRuntime),
      ∀ d ∈ (chainedRecords exampleRuntime .null).map (Canonical.ofDict exampleRuntime),
        exampleRuntime.sha256 c.serialized = exampleRuntime.sha256 d.serialized →
          c.serialized = d.serialized := by
    decide +kernel
  exact fun r hr s hs => hfree _ (htext r hr) _ (htext s hs)

/-- Two files, one with `null` and one with `""` as the output hash of the first record. -/
theorem tail_commits_chained :
    (inOrder ((chainedRecords exampleRuntime .null).filter isActionLine)).length = 2 ∧
    ∀ p ∈ (inOrder ((chainedRecords exampleRuntime .null).filter isActionLine)).zip
        (inOrder ((chainedRecords exampleRuntime (.str "")).filter isActionLine)),
      p.1.get "tool_name" = p.2.get "tool_name" ∧
        (p.1.get "output_hash").orEmpty = (p.2.get "output_hash").orEmpty ∧
        (p.1.get "prev_action_hash").orEmpty = (p.2.get "prev_action_hash").orEmpty := by
  have hf := @chainedRecords_isActionLine exampleRuntime .null
  have hg := @chainedRecords_isActionLine exampleRuntime (.str "")
  obtain ⟨-, hsame⟩ := tail_commits exampleRuntime (chainedRecords exampleRuntime .null)
    (chainedRecords exampleRuntime (.str "")) (chainedRecords_valid _ _) (chainedRecords_valid _ _)
    (by rw [hf]; exact List.cons_ne_nil _ _) (by rw [hg]; exact List.cons_ne_nil _ _)
    (by
      rw [hf, hg]
      -- each canonical field of the four records is a scalar
      intro r hr
      simp only [chainedRecords, List.cons_append, List.nil_append, List.mem_cons,
        List.not_mem_nil, or_false] at hr
      rcases hr with rfl | rfl | rfl | rfl <;> constructor <;>
        simp [chainedRecord, Dict.get_ofFields, List.lookup_cons, Json.IsScalar, ScalarOrNull])
    (by
      rw [hf, hg]
      exact collisionFree_chainedRecords)
    (by
      -- the last records have the same digest: both read the output hash of the first as empty
      have hlast := congrArg (fun l => l.getLast?.map (Canonical.selfHash exampleRuntime))
        (@chainedRecords_ofDict exampleRuntime)
      rw [hf, hg, inOrder_chainedRecords, inOrder_chainedRecords]
      simpa [chainedRecords, chainedRecord_get_self] using hlast.symm)
  refine ⟨by rw [hf, inOrder_chainedRecords]; rfl, fun p hp => ?_⟩
  obtain ⟨-, -, htool, -, -, -, hout, hprev⟩ := hsame p hp
  exact ⟨htool, hout, hprev⟩

end RootSign
