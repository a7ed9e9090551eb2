import UnitCalc.Proofs.Session.Script

namespace UnitCalc

variable {o : LexOptions} {r : Registry Float} {source : String} {es : List Evaluated}
  {q : Quantity} {qs : List Quantity} {e : Evaluated}

namespace CommandLine

-- The values of the longest start of some quantities in which each has a value.
def LongestValues (r : Registry Float) (qs : List Quantity) (es : List Evaluated) : Prop :=
  ∃ start, start <+: qs ∧ start.mapM (Quantity.evaluate r) = .ok es ∧
    ∀ longer es', longer <+: qs → longer.mapM (Quantity.evaluate r) = .ok es' → longer <+: start

theorem LongestValues.unique {es' : List Evaluated} (h : LongestValues r qs es)
    (h' : LongestValues r qs es') : es = es' := by
  obtain ⟨start, hstart, hvalues, hlongest⟩ := h
  obtain ⟨start', hstart', hvalues', hlongest'⟩ := h'
  have hle : start'.length ≤ start.length := (hlongest start' es' hstart' hvalues').length_le
  have hsame : start = start' := (hlongest' start es hstart hvalues).eq_of_length_le hle
  rw [hsame, hvalues'] at hvalues
  cases hvalues
  rfl

theorem longestValues_nil : LongestValues r [] [] :=
  ⟨[], List.prefix_rfl, rfl, fun _ _ hprefix _ => hprefix⟩

theorem longestValues_of_error {err : UnitError} (h : q.evaluate r = .error err) :
    LongestValues r (q :: qs) [] := by
  refine ⟨[], List.nil_prefix, rfl, ?_⟩
  intro longer es' hprefix hvalues
  cases longer with
  | nil => exact List.prefix_rfl
  | cons q' rest =>
      obtain ⟨rfl, -⟩ := List.cons_prefix_cons.mp hprefix
      obtain ⟨e, -, he, -⟩ := Quantity.mapM_evaluate_cons.mp hvalues
      rw [h] at he
      cases he

theorem LongestValues.cons (h : LongestValues r qs es) (hq : q.evaluate r = .ok e) :
    LongestValues r (q :: qs) (e :: es) := by
  obtain ⟨start, hstart, hvalues, hlongest⟩ := h
  refine ⟨q :: start, List.cons_prefix_cons.mpr ⟨rfl, hstart⟩,
    Quantity.mapM_evaluate_cons.mpr ⟨e, es, hq, hvalues, rfl⟩, ?_⟩
  intro longer es' hprefix hlonger
  cases longer with
  | nil => exact List.nil_prefix
  | cons q' rest =>
      obtain ⟨rfl, hrest⟩ := List.cons_prefix_cons.mp hprefix
      obtain ⟨-, es'', -, hrestValues, -⟩ := Quantity.mapM_evaluate_cons.mp hlonger
      exact List.cons_prefix_cons.mpr ⟨rfl, hlongest rest es'' hrest hrestValues⟩

theorem exists_output_evaluateAll (r : Registry Float) (qs : List Quantity) :
    ∃ es, LongestValues r qs es ∧ (evaluateAll r qs).output = es.map Evaluated.display := by
  induction qs with
  | nil => exact ⟨[], longestValues_nil, rfl⟩
  | cons q qs ih =>
      cases hq : q.evaluate r with
      | error err =>
          refine ⟨[], longestValues_of_error hq, ?_⟩
          rw [evaluateAll, hq]
          rfl
      | ok e =>
          obtain ⟨es, hlongest, houtput⟩ := ih
          refine ⟨e :: es, hlongest.cons hq, ?_⟩
          rw [evaluateAll, hq, List.map_cons, ← houtput]

theorem exists_of_code_evaluateAll (h : (evaluateAll r qs).code = 0) :
    ∃ es, qs.mapM (Quantity.evaluate r) = .ok es := by
  induction qs with
  | nil => exact ⟨[], rfl⟩
  | cons q qs ih =>
      rw [evaluateAll] at h
      cases hq : q.evaluate r with
      | error err =>
          rw [hq] at h
          cases h
      | ok e =>
          rw [hq] at h
          obtain ⟨es, hes⟩ := ih h
          exact ⟨e :: es, Quantity.mapM_evaluate_cons.mpr ⟨e, es, hq, hes, rfl⟩⟩

theorem runScript_of_error {err : ParseError} (h : parseLines o source = .error err) :
    runScript o r source = .failed [] := by
  rw [runScript, h]
  split <;> rfl

theorem code_runScript_eq_zero_iff :
    (runScript o r source).code = 0 ↔ ∃ es, evaluateLines o r source = .ok es := by
  constructor
  · intro h
    cases hparse : parseLines o source with
    | error err =>
        rw [runScript_of_error hparse] at h
        cases h
    | ok qs =>
        rw [runScript_of_parseLines hparse] at h
        obtain ⟨es, hvalues⟩ := exists_of_code_evaluateAll h
        exact ⟨es, evaluateLines_eq_ok_iff.mpr ⟨qs, hparse, hvalues⟩⟩
  · rintro ⟨es, h⟩
    rw [runScript_of_evaluateLines h]
    rfl

-- The reply to a script against the values of its lines.
theorem run_script_agrees {eval content : Option String} (file : Option String)
    (o : LexOptions) (r : Registry Float) (h : eval.or content = some source) :
    let reply := (Command.script file eval false o).run content r
    (reply.code = 0 ↔ ∃ es, evaluateLines o r source = .ok es) ∧
    (∀ err, parseLines o source = .error err → reply.text = "") ∧
    (∀ qs, parseLines o source = .ok qs → ∃ es, LongestValues r qs es ∧
      reply.text = String.join (es.map fun e => e.display ++ "\n")) ∧
    (∀ t ∈ lex o source, t.kind.fault? ≠ none → ∃ err, parseLines o source = .error err) ∧
    ((Diagnostics.empty.reportFaults (lex o source)).hasErrors = true →
      ∃ err, evaluateLines o r source = .error err) := by
  have hrun : (Command.script file eval false o).run content r = runScript o r source := by
    simp [Command.run, h]
  have hfaulty (t : Token) (ht : t ∈ lex o source) (hfault : t.kind.fault? ≠ none) :
      ∃ err, parseLines o source = .error err := by
    cases hparse : parseLines o source with
    | error err => exact ⟨err, rfl⟩
    | ok qs => exact absurd (fault?_of_parseLines hparse t ht) hfault
  rw [hrun]
  refine ⟨code_runScript_eq_zero_iff, ?_, ?_, hfaulty, ?_⟩
  · intro err hparse
    rw [runScript_of_error hparse]
    rfl
  · intro qs hparse
    obtain ⟨es, hlongest, houtput⟩ := exists_output_evaluateAll r qs
    refine ⟨es, hlongest, ?_⟩
    rw [runScript_of_parseLines hparse, Reply.text, houtput, List.map_map]
    rfl
  · intro herrors
    cases hvalues : evaluateLines o r source with
    | error err => exact ⟨err, rfl⟩
    | ok es =>
        obtain ⟨qs, hparse, -⟩ := evaluateLines_eq_ok_iff.mp hvalues
        rw [Diagnostics.hasErrors_of_fault? (fault?_of_parseLines hparse)] at herrors
        cases herrors

theorem run_script_agrees_second_fails :
    let reply := (Command.script none (some "5\n2 m") false {}).run none .empty
    (some "5\n2 m").or none = some "5\n2 m" ∧ reply.code ≠ 0 ∧ reply.text = "5\n" := by
  have hsource : (some "5\n2 m").or none = some "5\n2 m" := rfl
  have hparse : parseLines {} "5\n2 m" =
      .ok [⟨5, none, none⟩, ⟨2, some (.name "m" ⟨4, 1⟩), none⟩] := by decide +kernel
  have hfirst : Quantity.evaluate .empty ⟨5, none, none⟩ =
      .ok ⟨5, none, .multiplicative .one 1⟩ := by decide +kernel
  have hsecond : Quantity.evaluate .empty ⟨2, some (.name "m" ⟨4, 1⟩), none⟩ =
      .error (.unknownSymbol "m") := by decide +kernel
  have hfails : evaluateLines {} .empty "5\n2 m" = .error (.unit (.unknownSymbol "m")) := by
    decide +kernel
  have hdisplay : Evaluated.display ⟨5, none, .multiplicative .one 1⟩ = "5" := by decide +kernel
  obtain ⟨hcode, -, htext, -⟩ := run_script_agrees none {} .empty hsource
  refine ⟨hsource, ?_, ?_⟩
  · intro h
    obtain ⟨es, hes⟩ := hcode.mp h
    rw [hfails] at hes
    cases hes
  · obtain ⟨es, hlongest, hprinted⟩ := htext _ hparse
    have hvalues := hlongest.unique ((longestValues_of_error hsecond).cons hfirst)
    rw [hprinted, hvalues, List.map_singleton, hdisplay]
    rfl

end CommandLine

end UnitCalc
