import Settings.Proofs.Source.Comments

namespace Settings

/-- Behind an opening line there is no closing line, so that no comment block is left. -/
def Settled (contents : List (List Char)) : Prop :=
  contents.Pairwise fun content later =>
    Text.trim content = "=begin".toList → Text.trim later ≠ "=cut".toList

theorem settled_of_unclosed {lines : List SourceLine}
    (unclosed : lines.any SourceLine.closes = false) : Settled (lines.map SourceLine.content) := by
  refine List.pairwise_map.mpr (List.pairwise_of_forall_mem_list ?_)
  intro line _ later member _
  exact of_decide_eq_false (Bool.eq_false_iff.mpr (List.any_eq_false.mp unclosed later member))

theorem settled_outsideComments (region : Region) (lines : List SourceLine) :
    Settled ((outsideComments region lines).map SourceLine.content) := by
  induction region, lines using blockwise with
  | nil region => cases region <;> exact .nil
  | comment line rest ih =>
    rw [outsideComments]
    exact ih
  | statement line rest opening ih =>
    rw [outsideComments_statement opening, List.map_cons]
    refine List.pairwise_cons.mpr ⟨?_, ih⟩
    intro later _ opens
    exact absurd opens (of_decide_eq_false opening)
  | block line rest opening closing ih =>
    rw [outsideComments_block opening closing]
    exact ih
  | unclosed line rest opening closing =>
    rw [outsideComments_unclosed opening closing, List.map_cons]
    refine List.pairwise_cons.mpr ⟨?_, settled_of_unclosed closing⟩
    intro later member _
    obtain ⟨other, inside, rfl⟩ := List.mem_map.mp member
    exact of_decide_eq_false (Bool.eq_false_iff.mpr (List.any_eq_false.mp closing other inside))

theorem outsideComments_of_settled {lines : List SourceLine}
    (settled : Settled (lines.map SourceLine.content)) : outsideComments .statements lines = lines := by
  induction lines with
  | nil => rfl
  | cons line rest ih =>
    rw [List.map_cons] at settled
    obtain ⟨first, later⟩ := List.pairwise_cons.mp settled
    cases opening : line.opens with
    | false => rw [outsideComments_statement opening, ih later]
    | true =>
      have unclosed : rest.any SourceLine.closes = false := by
        refine List.any_eq_false.mpr ?_
        intro other member closes
        exact first _ (List.mem_map_of_mem member) (of_decide_eq_true opening) (of_decide_eq_true closes)
      rw [outsideComments_unclosed opening unclosed]

theorem toList_stripComments (text : String) :
    (stripComments text).toList = ((logicalLines text).map SourceLine.content).flatten := by
  rw [stripComments, String.toList_ofList, List.flatMap_def]

/-- The lines that are kept are all lines of the text without comments. -/
theorem logicalLines_stripComments (text : String) :
    logicalLines (stripComments text) = numbered 1 ((logicalLines text).map SourceLine.content) := by
  rw [logicalLines, sourceLines_eq_numbered, toList_stripComments,
    Text.lines_flatten_of_sublist (contents_logicalLines_sublist text)]
  refine outsideComments_of_settled ?_
  rw [contents_numbered]
  exact settled_outsideComments .statements (sourceLines text.toList)

theorem stripComments_stripComments (text : String) :
    stripComments (stripComments text) = stripComments text := by
  refine String.toList_injective ?_
  rw [toList_stripComments, logicalLines_stripComments, contents_numbered, toList_stripComments]

end Settings
