import RecordSynth.Proofs.Program.EmissionTrees

/-! Compilation of definitions: it succeeds exactly on the accepted ones, and what comes out is
the program that is laid out from the tree. Places in the source text have no part in either.
-/

namespace RecordSynth

open Source

namespace Emission

/-- Parameters that are given positions are distinct, stay within the limit, and stand behind
those that had positions before, by induction on the parameters.
-/
theorem bindParams_spec {bound params : Params} {ps : List Param}
    (h : bindParams bound ps = .ok params) (fits : bound.toList.length ≤ operandLimit)
    : params.toList = bound.toList ++ ps.map Param.name
      ∧ params.toList.length ≤ operandLimit := by
  induction ps generalizing bound with
  | nil =>
      cases h
      exact ⟨(List.append_nil _).symm, fits⟩
  | cons p rest ih =>
      rw [bindParams] at h
      split at h
      · cases h
      · next fresh =>
        obtain ⟨_, room, next⟩ := bind_eq_ok.mp h
        obtain ⟨below, _⟩ := operand_eq_ok_iff.mp room
        have fits' : (bound.push p.name fresh).toList.length ≤ operandLimit := by
          rw [Roster.toList_push, List.length_append]
          exact Nat.succ_le_of_lt below
        obtain ⟨whole, whole_le⟩ := ih next fits'
        refine ⟨?_, whole_le⟩
        simpa using whole

/-- Distinct parameters within the limit get their positions. -/
theorem bindParams_succeeds {bound : Params} {ps : List Param}
    (distinct : (bound.toList ++ ps.map Param.name).Nodup)
    (fits : (bound.toList ++ ps.map Param.name).length ≤ operandLimit)
    : ∃ params, bindParams bound ps = .ok params := by
  induction ps generalizing bound with
  | nil => exact ⟨bound, rfl⟩
  | cons p rest ih =>
      have absent : p.name ∉ bound.toList := by
        intro present
        exact (List.nodup_append.mp distinct).2.2 _ present _ List.mem_cons_self rfl
      have fresh := Roster.position?_eq_none_iff_not_mem.mpr absent
      have below : bound.size < operandLimit := by
        simp only [List.length_append, List.map_cons, List.length_cons] at fits
        rw [← Roster.length_toList]
        omega
      have pushed : (bound.push p.name fresh).toList ++ rest.map Param.name
          = bound.toList ++ (p :: rest).map Param.name := by
        simp
      obtain ⟨params, found⟩ := ih (pushed ▸ distinct) (pushed ▸ fits)
      refine ⟨params, ?_⟩
      rw [bindParams]
      split
      · next taken =>
        rw [fresh] at taken
        cases taken
      · exact bind_eq_ok.mpr ⟨_, operand_eq_ok_iff.mpr ⟨below, rfl⟩, found⟩

end Emission

/-- A definition that compiles is accepted, and its program is that of its layout. -/
theorem Program.ofDefinition_spec {d : Definition} {p : Program}
    (h : Program.ofDefinition d = .ok p)
    : d.Accepted ∧ p = d.program := by
  obtain ⟨params, bound, h⟩ := bind_eq_ok.mp h
  obtain ⟨e₁, body, h⟩ := bind_eq_ok.mp h
  obtain ⟨e₂, last, h⟩ := bind_eq_ok.mp h
  cases h
  obtain ⟨params_toList, params_le⟩ := Emission.bindParams_spec bound (Nat.zero_le _)
  have params_eq : params.toList = d.paramNames := params_toList
  obtain ⟨formed, bodyAdds, jumps⟩ := Emission.stmts_adds params _ _ d.body e₁ body
  have adds := bodyAdds.trans (Emission.adds_emitConst last)
  rw [List.append_nil] at adds
  have names_eq : e₂.names.toList = d.nameTable := adds.names
  have consts_eq : e₂.consts.toList = d.constTable := adds.consts
  -- The final tables are those of the definition, so its layout reads them.
  have reads : d.layout.Reads params.toList e₂ := by
    rw [Definition.layout, ← names_eq, ← consts_eq, ← params_eq]
    exact Layout.ofTables_reads params.toList e₂
  have code_eq : e₂.code.toList = d.bodyCode ++ [.loadConst (d.layout.const .none)] :=
    adds.code d.layout reads
  refine ⟨⟨?_, ?_, ?_, ?_, ?_, ?_⟩, ?_⟩
  · rw [← params_eq, ← Roster.keys_id]
    exact params.nodup_keys
  · exact params_eq ▸ params_le
  · exact params_eq ▸ formed
  · exact names_eq ▸ adds.names_le (Nat.zero_le _)
  · exact consts_eq ▸ adds.consts_le (Nat.zero_le _)
  · exact jumps d.layout ((Emission.adds_emitConst last).reads reads)
  · have whole : d.bodyCode ++ [.loadConst (d.layout.const .none), .giveBack]
        = e₂.code.toList ++ [.giveBack] := by
      rw [code_eq, List.append_assoc, List.singleton_append]
    rw [Definition.program, whole, ← params_eq, ← names_eq, ← consts_eq]
    simp only [Roster.toList, Array.toArray_toList, Emission.emit, ← Array.toList_push]

/-- An accepted definition compiles. -/
theorem Program.ofDefinition_succeeds {d : Definition} (accepted : d.Accepted)
    : ∃ p, Program.ofDefinition d = .ok p := by
  have distinct : ((Roster.empty : Emission.Params).toList ++ d.params.map Param.name).Nodup :=
    accepted.distinct
  obtain ⟨params, bound⟩ := Emission.bindParams_succeeds distinct accepted.params_le
  obtain ⟨params_toList, _⟩ := Emission.bindParams_spec bound (Nat.zero_le _)
  have params_eq : params.toList = d.paramNames := params_toList
  have fits : Emission.empty.Fits (Stmt.namesAll d.body ++ [])
      (Stmt.literalsAll d.body ++ [.none]) :=
    ⟨(List.append_nil (Stmt.namesAll d.body)).symm ▸ accepted.names_le, accepted.consts_le⟩
  obtain ⟨e₁, body⟩ := Emission.stmts_succeeds params d.isGenerator .empty d.body
    (params_eq ▸ accepted.wellFormed) fits.left d.layout accepted.targetsFit
  obtain ⟨_, adds, _⟩ := Emission.stmts_adds params _ _ d.body e₁ body
  obtain ⟨e₂, last⟩ := Emission.emitConst_succeeds d.range (fits.right adds)
  exact ⟨_, bind_eq_ok.mpr ⟨params, bound,
    bind_eq_ok.mpr ⟨e₁, body, bind_eq_ok.mpr ⟨e₂, last, rfl⟩⟩⟩⟩

/-- A definition compiles exactly if it is accepted, and then to the program of its layout. -/
theorem Program.ofDefinition_eq_ok_iff {d : Definition} {p : Program}
    : Program.ofDefinition d = .ok p ↔ d.Accepted ∧ p = d.program := by
  constructor
  · exact Program.ofDefinition_spec
  · rintro ⟨accepted, rfl⟩
    obtain ⟨p, compiled⟩ := Program.ofDefinition_succeeds accepted
    obtain ⟨_, rfl⟩ := Program.ofDefinition_spec compiled
    exact compiled

end RecordSynth
