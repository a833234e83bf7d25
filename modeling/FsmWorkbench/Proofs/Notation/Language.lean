import FsmWorkbench.Proofs.Notation.Agreement

set_option autoImplicit false

namespace FsmWorkbench

theorem parse_outline_of_lexemes {first second : String} {pieces others : List (Nat × Piece)}
    (cut : Cuts 0 first.toList pieces) (cutOther : Cuts 0 second.toList others)
    (same : lexemesOf pieces = lexemesOf others) {model : Model}
    (read : Model.parse first = .ok model) :
    ∃ other, Model.parse second = .ok other ∧ other.outline = model.outline := by
  obtain ⟨found, cutFound, program, lexemes, outlined⟩ := parse_outline_iff.1 ⟨model, read, rfl⟩
  obtain rfl := cutFound.unique cut
  exact parse_outline_iff.2 ⟨others, cutOther, program, same ▸ lexemes, outlined⟩

theorem parse_exact (text : String) :
    (Model.parse text).toOption = Grammar.parse? text ∧
      (∀ outline, (∃ model, Model.parse text = .ok model ∧ model.outline = outline) ↔
        ∃ pieces, Cuts 0 text.toList pieces ∧
          ∃ program : Program, lexemesOf pieces = program.lexemes ∧
            program.outline = outline) ∧
      ∀ (other : String) (pieces others : List (Nat × Piece)), Cuts 0 text.toList pieces →
        Cuts 0 other.toList others → lexemesOf pieces = lexemesOf others →
          (Model.parse text).toOption.map Model.outline =
            (Model.parse other).toOption.map Model.outline := by
  refine ⟨(Grammar.parse?_eq_toOption_parse text).symm, fun _ => parse_outline_iff, ?_⟩
  intro other pieces others cut cutOther same
  have forth := @parse_outline_of_lexemes _ _ _ _ cut cutOther same
  have back := @parse_outline_of_lexemes _ _ _ _ cutOther cut same.symm
  cases read : Model.parse text with
  | ok model =>
    obtain ⟨found, readOther, outlined⟩ := forth read
    simp [readOther, outlined, Except.toOption]
  | error =>
    cases readOther : Model.parse other with
    | error => rfl
    | ok found =>
      obtain ⟨_, accepted, -⟩ := back readOther
      rw [read] at accepted
      cases accepted

theorem parse_exact_across_comment :
    (Model.parse "machine m").toOption.map Model.outline =
      (Model.parse "machine//m\nm").toOption.map Model.outline := by
  have blank : Cuts 0 ('m' :: (['a', 'c', 'h', 'i', 'n', 'e'] ++ ' ' :: ('m' :: ([] ++ []))))
      [(0, .lexeme (.ofWord "machine")), (0, .lexeme (.ofWord "m"))] :=
    .spelled rfl rfl rfl (.blank (.inl rfl) (.spelled rfl rfl rfl (.done 0)))
  have comment : Cuts 0 ('m' :: (['a', 'c', 'h', 'i', 'n', 'e'] ++
        '/' :: '/' :: (['m'] ++ '\n' :: ('m' :: ([] ++ [])))))
      [(0, .lexeme (.ofWord "machine")), (0, .comment ['m']), (1, .lexeme (.ofWord "m"))] :=
    .spelled rfl rfl rfl
      (.comment (by decide) (by simp) (.newline (.spelled rfl rfl rfl (.done 1))))
  exact (parse_exact "machine m").2.2 "machine//m\nm" _ _ blank comment rfl

end FsmWorkbench
