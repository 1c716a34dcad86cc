import QuantStrategies.Frontend.ExchangeSeries
import QuantStrategies.Lib.Separator
import QuantStrategies.Refdata.Reader

/-!
# The name of a strategy

A strategy is found again by its name, which the form builds (`buildStrategyNm`): the traded
product with its venue and its cadence, and the recipe of each factor. The server reads the
cadence off it and refuses a run whose name has another (`assertCadenceInName`).

The parts of a name are put together with separators and are not quoted. Some separators
are words between two blanks, and a part may end in such a word, or begin with it, without
having the separator: `x on` before ` on ` reads like `x` before ` on on `. Two names are
told apart when no part has a separator, and a part that stands before such a word does not
have it together with the blank that follows the part, either: the cadence stands before the
arrow, the signal before ` on `, and the column before the conjunction where another factor
comes. Nothing more is asked of the other parts, which stand before a single character.

A name is read back from the left, separator by separator, by the library's rule for texts
that have none of a separating word: the last character of a part decides whether the word
after it can be found too early. `Clean` is what the parts have to be for it, and each
clause is used by one separator.
-/

namespace Frontend

open Separator

/-! ## The name -/

/-- `factorSource`: `f.vendor_symbol || f.symbol || trade`. -/
def factorSource (f : FactorConfig) (trade : String) : String :=
  (orUndefined (textOr f.vendorSymbol f.symbol)).getD trade

/-- The metric of a recipe: the column, with the source where the factor names one. -/
def factorMetric (f : FactorConfig) : String :=
  match orUndefined f.dataSource with
  | some dataSource => dataSource ++ ":" ++ f.dataColumn
  | none => f.dataColumn

/-- `factorRecipe`. -/
def factorRecipe (f : FactorConfig) (trade : String) : String :=
  factorSource f trade ++ "/" ++ f.indicator ++ "/" ++ f.strategy ++ " on " ++ factorMetric f

/-- `buildStrategyNm`. -/
def buildStrategyNm (cfg : BacktestConfig) (cadence : String) : String :=
  let trade := effectiveSymbol cfg
  let parts := cfg.factors.map (factorRecipe · trade)
  let factors :=
    (if 1 < cfg.factors.length then " " ++ cfg.conjunction ++ " " else "").intercalate parts
  trade ++ "@" ++ cfg.dataSource ++ ":" ++ cadence ++ " ← " ++ factors

/-! ## The cadence in the name -/

/-- A value of `config_json`, which is not typed, as far as `int` tells values apart. A
number is what the parser made of it, a whole one or a finite float. -/
inductive JsonValue where
  | null
  | bool (b : Bool)
  | number (q : ℚ)
  | notFinite
  | text (s : String)
  | nested

/-- `int(value)`, where it does not raise: a float loses what is behind the point, and a
text is read. -/
def JsonValue.int : JsonValue → Option ℤ
  | bool b => some (if b then 1 else 0)
  | number q => some (Python.trunc q)
  | text s => Python.intText s
  | _ => none

/-- `EnqueueRequest`, with the interval of its `config_json`. A `null` and a key that is
missing are both `None` there. -/
structure EnqueueRequest where
  /-- The name that the form built. -/
  strategyNm : String
  /-- The interval of the run, as untyped as the document is. -/
  tmIntervalId : JsonValue

/-- What refuses a request by its name: the check, the reference data, or the `int` that the
interval goes through, whose errors nothing handles. -/
inductive NameError where
  | strategyNameMismatch (message : String)
  | refdata (e : Refdata.ReadError)
  | int
deriving DecidableEq

/-- `RedisRefData.interval_name`, on the rows of `REFDATA.TM_INTERVAL`. -/
def intervalName (rows : Except Refdata.ReadError (List (ℤ × String))) (tmIntervalId : ℤ) :
    Except Refdata.ReadError String :=
  match rows with
  | .error e => .error e
  | .ok rows =>
    match rows.find? (·.1 = tmIntervalId) with
    | some r => .ok r.2
    | none => .error (.runtimeError
      s!"REFDATA.TM_INTERVAL missing TM_INTERVAL_ID={tmIntervalId}")

/-- The leg that is traded: `strategy_nm.split(" ← ", 1)[0]`. -/
def traded (strategyNm : String) : List Char := before " ← ".toList strategyNm.toList

/-- `JobsService._assert_cadence_in_name`. -/
def assertCadenceInName (rows : Except Refdata.ReadError (List (ℤ × String)))
    (req : EnqueueRequest) : Except NameError Unit :=
  match req.tmIntervalId with
  | .null => .error (.strategyNameMismatch ("config_json.tm_interval_id is required — it " ++
      "selects the bars the run is fitted on, and the strategy name is built from it"))
  | value =>
    match value.int with
    | none => .error .int
    | some tmIntervalId =>
      match intervalName rows tmIntervalId with
      | .error e => .error (.refdata e)
      | .ok cadence =>
        if (":" ++ cadence).toList <:+ traded req.strategyNm then .ok ()
        else
          let name := Python.repr req.strategyNm
          let quoted := Python.repr cadence
          .error (.strategyNameMismatch (s!"strategy_nm {name} does not name its cadence " ++
            s!"{quoted} — expected the traded leg to end ':{cadence}'. A name and a config " ++
            "describing different series would fork the lineage. Reload the page to pick up " ++
            "the current client"))

/-- **The check passes** exactly where the interval is a number, as `int` reads it, and the
traded leg ends in the cadence of that interval. -/
theorem assertCadenceInName_eq_ok {rows : Except Refdata.ReadError (List (ℤ × String))}
    {req : EnqueueRequest} : assertCadenceInName rows req = .ok () ↔
      ∃ i cadence, req.tmIntervalId.int = some i ∧ intervalName rows i = .ok cadence ∧
        (":" ++ cadence).toList <:+ traded req.strategyNm := by
  unfold assertCadenceInName
  split
  · next hnull => simp [hnull, JsonValue.int]
  · split
    · next hint => simp [hint]
    · next i hint =>
      split
      · next e hname => simp [hint, hname]
      · next cadence hname =>
        split
        · next hend => exact iff_of_true rfl ⟨i, cadence, hint, hname, hend⟩
        · next hend =>
          refine iff_of_false (by simp) ?_
          rintro ⟨j, cadence', hj, hname', hend'⟩
          obtain rfl := Option.some.inj (hint.symm.trans hj)
          obtain rfl := Except.ok.inj (hname.symm.trans hname')
          exact hend hend'

/-! ## What is promised of a name -/

/-- The conjunctions that a name has between its recipes. -/
def conjunctions (cfg : BacktestConfig) : List String :=
  if 1 < cfg.factors.length then [cfg.conjunction] else []

/-- The separators of names with these conjunctions. -/
def separators (words : List String) : List String :=
  ["@", ":", " ← ", "/", " on "] ++ words.map fun w => " " ++ w ++ " "

/-- The parts of a recipe. -/
def factorComponents (trade : String) (f : FactorConfig) : List String :=
  [factorSource f trade, f.indicator, f.strategy, f.dataColumn] ++ (orUndefined f.dataSource).toList

/-- The parts of a name. -/
def components (cfg : BacktestConfig) (cadence : String) : List String :=
  [effectiveSymbol cfg, cfg.dataSource, cadence] ++
    cfg.factors.flatMap (factorComponents (effectiveSymbol cfg))

/-- No part of a name has a separator. -/
def Separated (words : List String) (cfg : BacktestConfig) (cadence : String) : Prop :=
  ∀ c ∈ components cfg cadence, ∀ sep ∈ separators words, ¬sep.toList <:+: c.toList

instance (words : List String) (cfg : BacktestConfig) (cadence : String) :
    Decidable (Separated words cfg cadence) :=
  inferInstanceAs (Decidable (∀ c ∈ components cfg cadence, ∀ sep ∈ separators words,
    ¬sep.toList <:+: c.toList))

/-- A name can be read back. -/
structure Clean (words : List String) (cfg : BacktestConfig) (cadence : String) : Prop where
  /-- No part has a separator. -/
  separated : Separated words cfg cadence
  /-- The cadence, before the arrow, does not borrow the blank behind it. -/
  cadence : Free ' ' ['←'] cadence.toList
  /-- A signal, before the word ` on `, does not borrow the blank behind it. -/
  strategy : ∀ f ∈ cfg.factors, Free ' ' ['o', 'n'] f.strategy.toList
  /-- A column, before a conjunction, does not borrow the blank behind it. -/
  column : ∀ f ∈ cfg.factors.dropLast, ∀ w ∈ words, Free ' ' w.toList f.dataColumn.toList
  /-- A conjunction is a single word, and has no colon. -/
  word : ∀ w ∈ words, ' ' ∉ w.toList ∧ ':' ∉ w.toList

/-- Two factors read the same series and make the same signal of it. -/
structure SameFactor (trade trade' : String) (f g : FactorConfig) : Prop where
  /-- They are of one product. -/
  product : factorSource f trade = factorSource g trade'
  /-- From one source. -/
  dataSource : orUndefined f.dataSource = orUndefined g.dataSource
  /-- In one column. -/
  dataColumn : f.dataColumn = g.dataColumn
  /-- With one indicator. -/
  indicator : f.indicator = g.indicator
  /-- And one signal type. -/
  strategy : f.strategy = g.strategy

/-- Two runs are of one strategy. -/
structure SameStrategyNm (a b : BacktestConfig) (cadence cadence' : String) : Prop where
  /-- They trade one product. -/
  trade : effectiveSymbol a = effectiveSymbol b
  /-- From one source. -/
  dataSource : a.dataSource = b.dataSource
  /-- On one cadence. -/
  cadence : cadence = cadence'
  /-- With the same factors, in order. -/
  factors : List.Forall₂ (SameFactor (effectiveSymbol a) (effectiveSymbol b)) a.factors b.factors
  /-- Combined alike, where there are several. -/
  conjunction : 1 < a.factors.length → a.conjunction = b.conjunction

/-! ## The parts of a name -/

variable {words : List String} {a b cfg : BacktestConfig} {ca cb cadence trade trade' : String}

/-- What can be read back of a part: it has no separating character and no separating word. -/
structure Readable (words : List String) (c : String) : Prop where
  /-- No separator between product and source. -/
  atSign : '@' ∉ c.toList
  /-- None between source and cadence. -/
  colon : ':' ∉ c.toList
  /-- None between the parts of a recipe. -/
  slash : '/' ∉ c.toList
  /-- No arrow between two blanks. -/
  arrow : ¬spaced ' ' ['←'] <:+: c.toList
  /-- No conjunction between two blanks. -/
  conjunction : ∀ w ∈ words, ¬spaced ' ' w.toList <:+: c.toList

theorem Clean.readable (h : Clean words cfg cadence) {c : String}
    (hc : c ∈ components cfg cadence) : Readable words c where
  atSign hat := h.separated c hc "@" (by simp [separators]) ((List.singleton_infix_iff ..).mpr hat)
  colon hcolon :=
    h.separated c hc ":" (by simp [separators]) ((List.singleton_infix_iff ..).mpr hcolon)
  slash hslash :=
    h.separated c hc "/" (by simp [separators]) ((List.singleton_infix_iff ..).mpr hslash)
  arrow := h.separated c hc " ← " (by simp [separators])
  conjunction w hw := by
    have hnot := h.separated c hc (" " ++ w ++ " ")
      (List.mem_append_right _ (List.mem_map.mpr ⟨w, hw, rfl⟩))
    simpa [spaced] using hnot

theorem Clean.readable_trade (h : Clean words cfg cadence) : Readable words (effectiveSymbol cfg) :=
  h.readable (by simp [components])

theorem Clean.readable_source (h : Clean words cfg cadence) : Readable words cfg.dataSource :=
  h.readable (by simp [components])

theorem Clean.readable_cadence (h : Clean words cfg cadence) : Readable words cadence :=
  h.readable (by simp [components])

/-- The parts of a factor can be read back. -/
structure ReadableFactor (words : List String) (trade : String) (f : FactorConfig) : Prop where
  /-- Each of its parts. -/
  part : ∀ c ∈ factorComponents trade f, Readable words c
  /-- And its signal type does not run into the word behind it. -/
  strategy : Free ' ' ['o', 'n'] f.strategy.toList

/-- The factors of a clean name can be read back. -/
theorem Clean.readableFactor (h : Clean words cfg cadence) :
    ∀ f ∈ cfg.factors, ReadableFactor words (effectiveSymbol cfg) f := fun f hf =>
  ⟨fun _ hc => h.readable (List.mem_append_right _ (List.mem_flatMap.mpr ⟨f, hf, hc⟩)),
    h.strategy f hf⟩

/-! ## The metric of a recipe -/

/-- The source and the column of a metric are told apart by the colon. -/
theorem factorMetric_inj {f g : FactorConfig} (hf : ReadableFactor words trade f)
    (hg : ReadableFactor words trade' g) (h : factorMetric f = factorMetric g) :
    orUndefined f.dataSource = orUndefined g.dataSource ∧ f.dataColumn = g.dataColumn := by
  have hfcol := hf.part f.dataColumn (by simp [factorComponents])
  have hgcol := hg.part g.dataColumn (by simp [factorComponents])
  simp only [factorMetric] at h
  cases hfsrc : orUndefined f.dataSource with
  | none =>
    cases hgsrc : orUndefined g.dataSource with
    | none => exact ⟨rfl, by simpa only [hfsrc, hgsrc] using h⟩
    | some source =>
      simp only [hfsrc, hgsrc] at h
      exact absurd (by simp [h]) hfcol.colon
  | some source =>
    have hsource := hf.part source (by simp [factorComponents, hfsrc])
    cases hgsrc : orUndefined g.dataSource with
    | none =>
      simp only [hfsrc, hgsrc] at h
      exact absurd (by simp [← h]) hgcol.colon
    | some source' =>
      have hsource' := hg.part source' (by simp [factorComponents, hgsrc])
      simp only [hfsrc, hgsrc] at h
      have htext : source.toList ++ ':' :: f.dataColumn.toList =
          source'.toList ++ ':' :: g.dataColumn.toList := by
        simpa using congrArg String.toList h
      obtain ⟨hsrc, hcol⟩ := first_inj hsource.colon hsource'.colon htext
      exact ⟨congrArg some (String.toList_injective hsrc), String.toList_injective hcol⟩

/-- The metric of a factor that can be read back has no slash. -/
theorem slash_notMem_metric {f : FactorConfig} (hf : ReadableFactor words trade f) :
    '/' ∉ (factorMetric f).toList := by
  have hcol := (hf.part f.dataColumn (by simp [factorComponents])).slash
  cases hsrc : orUndefined f.dataSource with
  | none => simpa only [factorMetric, hsrc] using hcol
  | some source =>
    have hsource := (hf.part source (by simp [factorComponents, hsrc])).slash
    simp [factorMetric, hsrc, hsource, hcol]

/-- A metric is free of a word without a colon if its column is: the source before it ends
at the colon, and no blank follows it. -/
theorem free_metric {f : FactorConfig} (hf : ReadableFactor words trade f) {w : String}
    (hw : w ∈ words) (hcolon : ':' ∉ w.toList) (hcol : Free ' ' w.toList f.dataColumn.toList) :
    Free ' ' w.toList (factorMetric f).toList := by
  cases hsrc : orUndefined f.dataSource with
  | none => simpa only [factorMetric, hsrc] using hcol
  | some source =>
    have hsource := (hf.part source (by simp [factorComponents, hsrc])).conjunction w hw
    intro hinfix
    have htext : spaced ' ' w.toList <:+:
        source.toList ++ ':' :: (f.dataColumn.toList ++ [' ']) := by
      simpa [factorMetric, hsrc] using hinfix
    have hspaced : ':' ∉ spaced ' ' w.toList := by simp [spaced, hcolon]
    exact (infix_of_notMem hspaced htext).elim hsource hcol

/-! ## The recipes -/

theorem toList_factorRecipe (f : FactorConfig) (trade : String) :
    (factorRecipe f trade).toList =
      (factorSource f trade).toList ++ '/' :: (f.indicator.toList ++ '/' ::
        (f.strategy.toList ++ (spaced ' ' ['o', 'n'] ++ (factorMetric f).toList))) := by
  simp [factorRecipe, spaced]

/-- The recipes after the first one, each behind the conjunction. -/
def furtherRecipes (trade conjunction : String) (fs : List FactorConfig) : List Char :=
  fs.flatMap fun f => spaced ' ' conjunction.toList ++ (factorRecipe f trade).toList

/-- A recipe is read off: the source and the indicator up to a slash each, the strategy up to
the word before the metric. -/
theorem recipe_inj {f g : FactorConfig} {y y' : List Char} (hf : ReadableFactor words trade f)
    (hg : ReadableFactor words trade' g)
    (h : (factorRecipe f trade).toList ++ y = (factorRecipe g trade').toList ++ y') :
    factorSource f trade = factorSource g trade' ∧ f.indicator = g.indicator ∧
      f.strategy = g.strategy ∧
      (factorMetric f).toList ++ y = (factorMetric g).toList ++ y' := by
  simp only [toList_factorRecipe, List.append_assoc, List.cons_append] at h
  obtain ⟨hsource, h⟩ :=
    first_inj (hf.part (factorSource f trade) (by simp [factorComponents])).slash
      (hg.part (factorSource g trade') (by simp [factorComponents])).slash h
  obtain ⟨hindicator, h⟩ := first_inj (hf.part f.indicator (by simp [factorComponents])).slash
    (hg.part g.indicator (by simp [factorComponents])).slash h
  obtain ⟨hstrategy, -, hmetric⟩ := spaced_inj (by decide) (by decide) hf.strategy hg.strategy h
  exact ⟨String.toList_injective hsource, String.toList_injective hindicator,
    String.toList_injective hstrategy, hmetric⟩

/-- A metric is not continued by further recipes, which have a slash. -/
theorem metric_ne_append {f : FactorConfig} (hf : ReadableFactor words trade f) (x : List Char)
    (conjunction : String) (g : FactorConfig) (gs : List FactorConfig) :
    (factorMetric f).toList ≠ x ++ furtherRecipes trade' conjunction (g :: gs) := by
  intro h
  refine slash_notMem_metric hf ?_
  rw [h, furtherRecipes, List.flatMap_cons, toList_factorRecipe]
  simp

/-- **The factors are read back from their recipes**, and so is the conjunction where there
is one. The induction is on the factors after the first. -/
theorem recipes_inj {conjunction conjunction' : String}
    (hword : ∀ w ∈ words, ' ' ∉ w.toList ∧ ':' ∉ w.toList) (fs gs : List FactorConfig) :
    ∀ f g : FactorConfig, (∀ k ∈ f :: fs, ReadableFactor words trade k) →
      (∀ k ∈ g :: gs, ReadableFactor words trade' k) →
      (∀ k ∈ (f :: fs).dropLast, ∀ w ∈ words, Free ' ' w.toList k.dataColumn.toList) →
      (∀ k ∈ (g :: gs).dropLast, ∀ w ∈ words, Free ' ' w.toList k.dataColumn.toList) →
      (fs ≠ [] → conjunction ∈ words) → (gs ≠ [] → conjunction' ∈ words) →
      (factorRecipe f trade).toList ++ furtherRecipes trade conjunction fs =
        (factorRecipe g trade').toList ++ furtherRecipes trade' conjunction' gs →
      List.Forall₂ (SameFactor trade trade') (f :: fs) (g :: gs) ∧
        (fs ≠ [] → conjunction = conjunction') := by
  induction fs generalizing gs with
  | nil =>
    intro f g hf hg _ _ _ _ h
    obtain ⟨hsource, hindicator, hstrategy, hmetric⟩ := recipe_inj (hf f (by simp))
      (hg g (by simp)) h
    cases gs with
    | nil =>
      obtain ⟨hdata, hcol⟩ := factorMetric_inj (hf f (by simp)) (hg g (by simp))
        (String.toList_injective (by simpa [furtherRecipes] using hmetric))
      exact ⟨.cons ⟨hsource, hdata, hcol, hindicator, hstrategy⟩ .nil, fun hnil => absurd rfl hnil⟩
    | cons g₂ gs =>
      exact absurd ((List.append_nil _).symm.trans hmetric)
        (metric_ne_append (hf f (by simp)) _ _ _ _)
  | cons f₂ fs ih =>
    intro f g hf hg hfcol hgcol hfs hgs h
    obtain ⟨hsource, hindicator, hstrategy, hmetric⟩ := recipe_inj (hf f (by simp))
      (hg g (by simp)) h
    cases gs with
    | nil =>
      exact absurd ((List.append_nil _).symm.trans hmetric.symm)
        (metric_ne_append (hg g (by simp)) _ _ _ _)
    | cons g₂ gs =>
      have hc := hfs (by simp)
      have hc' := hgs (by simp)
      simp only [furtherRecipes, List.flatMap_cons, List.append_assoc] at hmetric
      obtain ⟨heq, hconj, hrest⟩ := spaced_inj (hword _ hc).1 (hword _ hc').1
        (free_metric (hf f (by simp)) hc' (hword _ hc').2 (hfcol f (by simp) _ hc'))
        (free_metric (hg g (by simp)) hc (hword _ hc).2 (hgcol g (by simp) _ hc)) hmetric
      obtain ⟨hdata, hcol⟩ := factorMetric_inj (hf f (by simp)) (hg g (by simp))
        (String.toList_injective heq)
      obtain ⟨hsame, -⟩ := ih gs f₂ g₂ (fun k hk => hf k (List.mem_cons_of_mem _ hk))
        (fun k hk => hg k (List.mem_cons_of_mem _ hk))
        (fun k hk => hfcol k (List.mem_cons_of_mem _ hk))
        (fun k hk => hgcol k (List.mem_cons_of_mem _ hk)) (fun _ => hc) (fun _ => hc') hrest
      exact ⟨.cons ⟨hsource, hdata, hcol, hindicator, hstrategy⟩ hsame,
        fun _ => String.toList_injective hconj⟩

/-! ## The name as a text -/

/-- The recipes of a name. -/
def recipes (cfg : BacktestConfig) : List Char :=
  match cfg.factors with
  | [] => []
  | f :: fs => (factorRecipe f (effectiveSymbol cfg)).toList ++
      furtherRecipes (effectiveSymbol cfg) cfg.conjunction fs

/-- `parts.join(…)`: behind each part after the first stands the separator. -/
theorem toList_intercalate_map (sep : String) (r : FactorConfig → String) (f : FactorConfig)
    (fs : List FactorConfig) :
    (sep.intercalate ((f :: fs).map r)).toList =
      (r f).toList ++ fs.flatMap fun g => sep.toList ++ (r g).toList := by
  induction fs generalizing f with
  | nil => simp
  | cons g fs ih =>
    rw [List.map_cons, List.map_cons, String.intercalate_cons_cons, String.toList_append,
      String.toList_append, ← List.map_cons, ih, List.flatMap_cons, List.append_assoc,
      List.append_assoc]

/-- A name, letter by letter: product, source and cadence, and the recipes behind the arrow. -/
theorem toList_buildStrategyNm (cfg : BacktestConfig) (cadence : String) :
    (buildStrategyNm cfg cadence).toList =
      (effectiveSymbol cfg).toList ++ '@' :: (cfg.dataSource.toList ++ ':' ::
        (cadence.toList ++ (spaced ' ' ['←'] ++ recipes cfg))) := by
  have hrecipes :
      ((if 1 < cfg.factors.length then " " ++ cfg.conjunction ++ " " else "").intercalate
        (cfg.factors.map (factorRecipe · (effectiveSymbol cfg)))).toList = recipes cfg := by
    unfold recipes
    cases hfactors : cfg.factors with
    | nil => simp
    | cons f fs =>
      rw [toList_intercalate_map]
      cases fs with
      | nil => rfl
      | cons g fs => simp [furtherRecipes, spaced]
  simp only [buildStrategyNm, String.toList_append, hrecipes]
  simp [spaced]

/-! ## What the name says -/

/-- A conjunction stands behind the first of several recipes. -/
theorem conjunction_mem {f : FactorConfig} {fs : List FactorConfig} (hfs : cfg.factors = f :: fs)
    (hne : fs ≠ []) : cfg.conjunction ∈ conjunctions cfg := by
  have hlt : 1 < cfg.factors.length := by simp [hfs, List.length_pos_iff, hne]
  simp [conjunctions, hlt]

/-- All factors are read back from the recipes of a name. -/
theorem recipes_cfg_inj (ha : Clean (conjunctions a ++ conjunctions b) a ca)
    (hb : Clean (conjunctions a ++ conjunctions b) b cb) (h : recipes a = recipes b) :
    List.Forall₂ (SameFactor (effectiveSymbol a) (effectiveSymbol b)) a.factors b.factors ∧
      (1 < a.factors.length → a.conjunction = b.conjunction) := by
  have hfa := ha.readableFactor
  have hfb := hb.readableFactor
  have hcola := ha.column
  have hcolb := hb.column
  unfold recipes at h
  cases hfs : a.factors with
  | nil =>
    cases hgs : b.factors with
    | nil => exact ⟨.nil, fun hlt => absurd hlt (by simp)⟩
    | cons g gs => simp [hfs, hgs, toList_factorRecipe] at h
  | cons f fs =>
    cases hgs : b.factors with
    | nil => simp [hfs, hgs, toList_factorRecipe] at h
    | cons g gs =>
      rw [hfs] at hfa hcola
      rw [hgs] at hfb hcolb
      simp only [hfs, hgs] at h
      have hmem : fs ≠ [] → a.conjunction ∈ conjunctions a ++ conjunctions b := fun hne =>
        List.mem_append_left _ (conjunction_mem hfs hne)
      have hmem' : gs ≠ [] → b.conjunction ∈ conjunctions a ++ conjunctions b := fun hne =>
        List.mem_append_right _ (conjunction_mem hgs hne)
      obtain ⟨hsame, hconj⟩ := recipes_inj ha.word fs gs f g hfa hfb hcola hcolb hmem hmem' h
      exact ⟨hsame, fun hlt => hconj (by rintro rfl; simp at hlt)⟩

/-- A name is read back. -/
theorem sameStrategyNm_of_eq (ha : Clean (conjunctions a ++ conjunctions b) a ca)
    (hb : Clean (conjunctions a ++ conjunctions b) b cb)
    (h : buildStrategyNm a ca = buildStrategyNm b cb) : SameStrategyNm a b ca cb := by
  have htext := congrArg String.toList h
  rw [toList_buildStrategyNm, toList_buildStrategyNm] at htext
  obtain ⟨htrade, htext⟩ := first_inj ha.readable_trade.atSign hb.readable_trade.atSign htext
  obtain ⟨hsource, htext⟩ := first_inj ha.readable_source.colon hb.readable_source.colon htext
  obtain ⟨hcadence, -, htext⟩ := spaced_inj (by decide) (by decide) ha.cadence hb.cadence htext
  obtain ⟨hfactors, hconj⟩ := recipes_cfg_inj ha hb htext
  exact ⟨String.toList_injective htrade, String.toList_injective hsource,
    String.toList_injective hcadence, hfactors, hconj⟩

/-- The same factor has one recipe. -/
theorem SameFactor.factorRecipe_eq {f g : FactorConfig} (h : SameFactor trade trade' f g) :
    factorRecipe f trade = factorRecipe g trade' := by
  simp only [factorRecipe, factorMetric, h.product, h.dataSource, h.dataColumn, h.indicator,
    h.strategy]

/-- The same factors have the same recipes. -/
theorem map_factorRecipe_eq {fs gs : List FactorConfig}
    (h : List.Forall₂ (SameFactor trade trade') fs gs) :
    fs.map (factorRecipe · trade) = gs.map (factorRecipe · trade') := by
  induction h with
  | nil => rfl
  | cons hsame _ ih => rw [List.map_cons, List.map_cons, hsame.factorRecipe_eq, ih]

/-- Two runs of one strategy have one name. -/
theorem SameStrategyNm.buildStrategyNm_eq (h : SameStrategyNm a b ca cb) :
    buildStrategyNm a ca = buildStrategyNm b cb := by
  have hlen : a.factors.length = b.factors.length := h.factors.length_eq
  have hconj := h.conjunction
  simp only [buildStrategyNm]
  rw [map_factorRecipe_eq h.factors, h.trade, h.dataSource, h.cadence, hlen]
  rw [hlen] at hconj
  by_cases hlt : 1 < b.factors.length
  · rw [hconj hlt]
  · rw [if_neg hlt, if_neg hlt]

/-! ## What the server reads off the name -/

/-- The leg that is traded is what stands before the arrow. -/
theorem traded_buildStrategyNm (h : Clean words cfg cadence) :
    traded (buildStrategyNm cfg cadence) =
      (effectiveSymbol cfg).toList ++ '@' :: (cfg.dataSource.toList ++ ':' :: cadence.toList) := by
  have hleg : Free ' ' ['←'] ((effectiveSymbol cfg).toList ++
      '@' :: (cfg.dataSource.toList ++ ':' :: cadence.toList)) := by
    intro hinfix
    rw [List.append_assoc, List.cons_append, List.append_assoc, List.cons_append] at hinfix
    rcases infix_of_notMem (by decide) hinfix with hin | hin
    · exact h.readable_trade.arrow hin
    rcases infix_of_notMem (by decide) hin with hin | hin
    · exact h.readable_source.arrow hin
    · exact h.cadence hin
  rw [traded, toList_buildStrategyNm]
  have hbefore := before_spaced (w := ['←']) (by decide) hleg (recipes cfg)
  simpa [spaced] using hbefore

/-- The leg that is traded ends in one cadence only. -/
theorem traded_endsWith_iff (h : Clean words cfg cadence) (c : String) :
    (":" ++ c).toList <:+ traded (buildStrategyNm cfg cadence) ↔ c = cadence := by
  rw [traded_buildStrategyNm h]
  constructor
  · rintro ⟨x, hx⟩
    have htext : ((effectiveSymbol cfg).toList ++ '@' :: cfg.dataSource.toList) ++
        ':' :: cadence.toList = x ++ ':' :: c.toList := by
      simpa using hx.symm
    have hnot : ':' ∉ (effectiveSymbol cfg).toList ++ '@' :: cfg.dataSource.toList := by
      simp [h.readable_trade.colon, h.readable_source.colon]
    -- the only colon is the one before the cadence
    obtain ⟨-, -, hcadence⟩ :=
      (List.append_cons_inj_of_notMem hnot h.readable_cadence.colon).mp htext
    exact String.toList_injective hcadence.symm
  · rintro rfl
    exact ⟨(effectiveSymbol cfg).toList ++ '@' :: cfg.dataSource.toList, by simp⟩

/-- The check passes where the interval of the request has the cadence of the name. -/
theorem assertCadenceInName_iff (h : Clean words cfg cadence)
    (rows : Except Refdata.ReadError (List (ℤ × String))) (tmIntervalId : JsonValue) :
    assertCadenceInName rows ⟨buildStrategyNm cfg cadence, tmIntervalId⟩ = .ok () ↔
      ∃ i, tmIntervalId.int = some i ∧ intervalName rows i = .ok cadence := by
  rw [assertCadenceInName_eq_ok]
  constructor
  · rintro ⟨i, c, hint, hname, hend⟩
    obtain rfl := (traded_endsWith_iff h c).mp hend
    exact ⟨i, hint, hname⟩
  · rintro ⟨i, hint, hname⟩
    exact ⟨i, cadence, hint, hname, (traded_endsWith_iff h cadence).mpr rfl⟩

/-- **The name of a strategy identifies it**, where its parts can be read back: two runs have
one name exactly when they are of one strategy, and the server takes the name exactly with
the cadence that it was built with. -/
theorem strategyNm_identifies (a b : BacktestConfig) (ca cb : String)
    (ha : Clean (conjunctions a ++ conjunctions b) a ca)
    (hb : Clean (conjunctions a ++ conjunctions b) b cb) :
    (buildStrategyNm a ca = buildStrategyNm b cb ↔ SameStrategyNm a b ca cb) ∧
      ∀ (rows : Except Refdata.ReadError (List (ℤ × String))) (tmIntervalId : JsonValue),
        assertCadenceInName rows ⟨buildStrategyNm a ca, tmIntervalId⟩ = .ok () ↔
          ∃ i, tmIntervalId.int = some i ∧ intervalName rows i = .ok ca :=
  ⟨⟨sameStrategyNm_of_eq ha hb, SameStrategyNm.buildStrategyNm_eq⟩, assertCadenceInName_iff ha⟩

/-- A run of one product with these factors. -/
def btcRun (factors : List FactorConfig) (conjunction : String := "AND") : BacktestConfig where
  symbol := "btcusdt.crypto"
  vendorSymbol := ""
  dataSource := "yahoo"
  tmIntervalId := some 1
  start := "2020-01-01"
  stop := "2024-01-01"
  tradingPeriod := 1
  refreshDataset := false
  conjunction := conjunction
  factors := factors

/-- A factor of the traded product. -/
def bandFactor (dataColumn : String) : FactorConfig where
  dataColumn := dataColumn
  indicator := "get_bollinger_band"
  strategy := "momentum_band_signal"

/-- A factor of another product, which names its source. -/
def vixFactor : FactorConfig where
  symbol := some "vix.equity_us"
  dataSource := some "cboe"
  indicator := "get_rsi"
  strategy := "momentum_band_signal"

/-- Of two factors and of one, with a cadence each. -/
theorem btcRun_identified :
    (buildStrategyNm (btcRun [bandFactor "c", vixFactor] "OR") "DAILY" =
        buildStrategyNm (btcRun [bandFactor "c"]) "1H" ↔
      SameStrategyNm (btcRun [bandFactor "c", vixFactor] "OR") (btcRun [bandFactor "c"])
        "DAILY" "1H") ∧
      ∀ (rows : Except Refdata.ReadError (List (ℤ × String))) (tmIntervalId : JsonValue),
        assertCadenceInName rows
            ⟨buildStrategyNm (btcRun [bandFactor "c", vixFactor] "OR") "DAILY", tmIntervalId⟩ =
              .ok () ↔
          ∃ i, tmIntervalId.int = some i ∧ intervalName rows i = .ok "DAILY" :=
  strategyNm_identifies _ _ _ _
    ⟨by decide +kernel, by decide +kernel, by decide +kernel, by decide +kernel, by decide +kernel⟩
    ⟨by decide +kernel, by decide +kernel, by decide +kernel, by decide +kernel, by decide +kernel⟩

/-- A part may end in a separating word, or begin with it, and misses only the blank: the
strategy `x on` with the column `c` reads like the strategy `x` with the column `on c`. In
the same way a cadence borrows the arrow, and a conjunction has a whole recipe in it. -/
theorem borrowed_word_not_identified :
    (let a := btcRun [{ bandFactor "c" with strategy := "momentum on" }]
     let b := btcRun [{ bandFactor "on c" with strategy := "momentum" }]
     Separated (conjunctions a ++ conjunctions b) a "DAILY" ∧
       Separated (conjunctions a ++ conjunctions b) b "DAILY" ∧
       buildStrategyNm a "DAILY" = buildStrategyNm b "DAILY" ∧
       ¬SameStrategyNm a b "DAILY" "DAILY") ∧
    (let a := btcRun [bandFactor "c"]
     Separated (conjunctions a) a "DAILY ←" ∧
       assertCadenceInName (.ok [(1, "DAILY"), (2, "DAILY ←")])
         ⟨buildStrategyNm a "DAILY ←", .number 1⟩ = .ok ()) ∧
    (let a := btcRun [bandFactor "c", bandFactor "v", bandFactor "c"]
     let b := btcRun [bandFactor "c", bandFactor "c"]
       "AND btcusdt.crypto/get_bollinger_band/momentum_band_signal on v AND"
     Separated (conjunctions a ++ conjunctions b) a "DAILY" ∧
       Separated (conjunctions a ++ conjunctions b) b "DAILY" ∧
       buildStrategyNm a "DAILY" = buildStrategyNm b "DAILY" ∧
       ¬SameStrategyNm a b "DAILY" "DAILY") := by
  refine ⟨⟨by decide +kernel, by decide +kernel, by decide +kernel, fun h => ?_⟩,
    ⟨by decide +kernel, by decide +kernel⟩, by decide +kernel, by decide +kernel,
    by decide +kernel, fun h => ?_⟩
  · cases h.factors with
    | cons hfactor _ => exact absurd hfactor.strategy (by decide)
  · exact absurd h.factors.length_eq (by decide)

end Frontend
