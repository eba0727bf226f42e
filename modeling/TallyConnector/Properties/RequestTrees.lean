import Mathlib
import TallyConnector.Tally.RequestTree
import TallyConnector.World.Receipts

/-! # A request's XML says what the request says

The tree of `build_collection_request` can be read back: every `FILTER` names a
formula that is there, and the dates, the names and the checkpoint are those
that were asked for (`read_collectionRequestTree`).
-/

namespace TallyConnector

open Sorting

/-! ## Numerals -/

theorem digitValue_digitChar : ∀ d < 10, digitValue (Nat.digitChar d) = some d := by decide

theorem isDigit_digitChar : ∀ d < 10, (Nat.digitChar d).isDigit = true := by decide

theorem ofDigits_digits {width n : Nat} (h : n < 10 ^ width) : ofDigits (digits width n) = n := by
  induction width generalizing n with
  | zero =>
    obtain rfl : n = 0 := by omega
    rfl
  | succ width ih =>
    have hlast : ofDigits [Nat.digitChar (n % 10)] = n % 10 := by
      simp [ofDigits, digitValue_digitChar _ (Nat.mod_lt n (by decide))]
    have hrest : n / 10 < 10 ^ width := by
      rw [Nat.pow_succ] at h
      omega
    rw [digits, ofDigits_append, ih hrest, hlast, List.length_singleton]
    omega

theorem all_digits (width n : Nat) : (digits width n).all Char.isDigit = true := by
  induction width generalizing n with
  | zero => rfl
  | succ width ih =>
    rw [digits, List.all_append, ih]
    simp [isDigit_digitChar _ (Nat.mod_lt n (by decide))]

theorem readNat_digits {width n : Nat} (hwidth : 0 < width) (h : n < 10 ^ width) :
    readNat (digits width n) = some n := by
  have hne : (digits width n).isEmpty = false := by
    rw [List.isEmpty_eq_false_iff, ← List.length_pos_iff, length_digits]
    exact hwidth
  rw [readNat, all_digits, hne, ofDigits_digits h]
  rfl

/-- A year from 1000 on has four digits. -/
theorem toDigits_year {year : Nat} (h : 1000 ≤ year) (h' : year ≤ 9999) :
    Nat.toDigits 10 year = digits 4 year := by
  have hbase : (1 : Nat) < 10 := by decide
  rw [Nat.toDigits_of_base_le hbase (by omega), Nat.toDigits_of_base_le hbase (by omega),
    Nat.toDigits_of_base_le hbase (by omega), Nat.toDigits_of_lt_base (by omega)]
  have hfirst : year / 10 / 10 / 10 % 10 = year / 10 / 10 / 10 := Nat.mod_eq_of_lt (by omega)
  simp only [digits, hfirst, List.nil_append]

theorem daysInMonth_lt (year month : Nat) : daysInMonth year month < 100 := by
  unfold daysInMonth
  split_ifs <;> decide

/-- A day is read back from its text. -/
theorem readDay_text {value : CalendarDate} (h : 1000 ≤ value.year) :
    readDay value.text = some value.ordinal := by
  obtain ⟨year, month, day, hyear, hmonth, hday⟩ := value
  have hdays := daysInMonth_lt year month
  unfold readDay CalendarDate.text CalendarDate.ordinal
  simp only [toDigits_year h hyear.2, String.toList_ofList]
  -- the parts are told apart by their widths
  have htake : (digits 4 year ++ (digits 2 month ++ digits 2 day)).take 4 = digits 4 year :=
    List.take_left' (length_digits 4 year)
  have hdrop : (digits 4 year ++ (digits 2 month ++ digits 2 day)).drop 4 =
      digits 2 month ++ digits 2 day := List.drop_left' (length_digits 4 year)
  have hmonths : (digits 2 month ++ digits 2 day).take 2 = digits 2 month :=
    List.take_left' (length_digits 2 month)
  have hdropped : (digits 4 year ++ (digits 2 month ++ digits 2 day)).drop 6 = digits 2 day := by
    rw [← List.append_assoc]
    exact List.drop_left' (by simp [length_digits])
  rw [htake, hdrop, hmonths, hdropped, readNat_digits (by decide) (by omega),
    readNat_digits (by decide) (by omega), readNat_digits (by decide) (by omega)]
  simp [length_digits, hyear.1, hmonth, hday]

/-! ## Texts -/

theorem textAfter_append (before text : String) : textAfter before (before ++ text) = some text := by
  have hprefix : before.toList.isPrefixOf (before ++ text).toList = true := by
    rw [String.toList_append, List.isPrefixOf_iff_prefix]
    exact List.prefix_append _ _
  rw [textAfter, if_pos hprefix, String.toList_append,
    List.drop_left' (String.length_toList), String.ofList_toList]

theorem textBefore_append (after text : String) : textBefore after (text ++ after) = some text := by
  have hsuffix : after.toList.isSuffixOf (text ++ after).toList = true := by
    rw [String.toList_append, List.isSuffixOf_iff_suffix]
    exact List.suffix_append _ _
  have hlength : (text ++ after).length - after.length = text.toList.length := by
    rw [String.length_append, String.length_toList]
    omega
  rw [textBefore, if_pos hsuffix, hlength, String.toList_append, List.take_left,
    String.ofList_toList]

theorem readFormula_voucherTypeName (name : String) :
    readFormula ("$VoucherTypeName = \"" ++ name ++ "\"") = some (.voucherTypeName name) := by
  rw [readFormula, String.append_assoc, textAfter_append]
  simp only [textBefore_append, Option.map_some]

theorem readFormula_alterIdAbove (n : Int) :
    readFormula ("$AlterID > " ++ toString n) = some (.alterIdAbove n) := by
  -- the other formula begins differently
  have hother : textAfter "$VoucherTypeName = \"" ("$AlterID > " ++ toString n) = none := by
    rw [textAfter, String.toList_append]
    rfl
  have hint : (toString n).toInt? = some n := Int.toInt?_repr n
  simp only [readFormula, hother, textAfter_append, Option.bind_some, hint, Option.map_some]

/-! ## Elements -/

theorem readOptional_leaf {α : Type} {read : String → Option α} {elem : Element} {tag : String}
    {texts : Option String} (hfind : elem.find tag = texts.map (leaf tag)) {values : Option α}
    (hread : texts.map read = values.map some) : readOptional read elem tag = some values := by
  rw [readOptional, hfind]
  cases texts with
  | none =>
    cases values with
    | none => rfl
    | some value => cases hread
  | some text =>
    cases values with
    | none => cases hread
    | some value =>
      have hvalue : read text = some value := by simpa using hread
      simp [leaf, Element.text, hvalue]

theorem mapM_text_leaf (tag : String) (texts : List String) :
    (texts.map (leaf tag)).mapM Element.text = some texts := by
  induction texts with
  | nil => rfl
  | cons text texts ih => simp [leaf, Element.text, ih]

theorem filter_leaf_self (tag : String) (texts : List String) :
    (texts.map (leaf tag)).filter (·.tag == tag) = texts.map (leaf tag) := by
  rw [List.filter_eq_self]
  intro elem helem
  obtain ⟨text, -, rfl⟩ := List.mem_map.mp helem
  simp [leaf, Element.tag]

theorem filter_leaf_ne {tag other : String} (hne : other ≠ tag) (texts : List String) :
    (texts.map (leaf other)).filter (·.tag == tag) = [] := by
  rw [List.filter_eq_nil_iff]
  intro elem helem
  obtain ⟨text, -, rfl⟩ := List.mem_map.mp helem
  simpa [leaf, Element.tag] using hne

/-! ## Requests -/

section filters
variable {attrs : List (String × String)} {children rest : List Element} {name text : String}

@[simp] theorem formula_tag : (formula name text).tag = "SYSTEM" := rfl

@[simp] theorem formula_text : (formula name text).text = some text := rfl

@[simp] theorem formula_type : (formula name text).get "TYPE" = some "Formulae" := rfl

@[simp] theorem formula_name : (formula name text).get "NAME" = some name := rfl

theorem findall_formula : (branch "TDLMESSAGE" (.mk "COLLECTION" attrs none children ::
    formula name text :: rest)).findall "SYSTEM" =
      formula name text :: rest.filter (·.tag == "SYSTEM") := rfl

theorem readFilter_formula :
    readFilter (branch "TDLMESSAGE" (.mk "COLLECTION" attrs none children :: formula name text :: rest))
      name = readFormula text := by
  simp [readFilter, findall_formula]

theorem readFilter_other {other otherText : String} (hne : other ≠ name) :
    readFilter (branch "TDLMESSAGE" (.mk "COLLECTION" attrs none children ::
        formula other otherText :: formula name text :: rest)) name = readFormula text := by
  simp [readFilter, findall_formula, hne]

/-- Every filter that is named has its formula. -/
theorem readFilters (voucherTypeFilter : Option String) (sinceAlterId : Option Int) :
    ((voucherTypeFilter.map fun _ => "VchTypeFilter").toList ++
      (sinceAlterId.map fun _ => "AlterIdFilter").toList).mapM (readFilter (branch "TDLMESSAGE"
        (.mk "COLLECTION" attrs none children :: ((voucherTypeFilter.map fun name =>
            formula "VchTypeFilter" ("$VoucherTypeName = \"" ++ name ++ "\"")).toList ++
          (sinceAlterId.map fun n =>
            formula "AlterIdFilter" ("$AlterID > " ++ toString n)).toList)))) =
      some ((voucherTypeFilter.map Formula.voucherTypeName).toList ++
        (sinceAlterId.map Formula.alterIdAbove).toList) := by
  cases voucherTypeFilter with
  | none =>
    -- no type of voucher is asked for
    cases sinceAlterId with
    | none => rfl
    | some n =>
      simp only [Option.map_none, Option.map_some, Option.toList_none, Option.toList_some,
        List.nil_append, List.mapM_cons, List.mapM_nil, readFilter_formula,
        readFormula_alterIdAbove]
      rfl
  | some name =>
    cases sinceAlterId with
    | none =>
      simp only [Option.map_none, Option.map_some, Option.toList_none, Option.toList_some,
        List.append_nil, List.mapM_cons, List.mapM_nil, readFilter_formula,
        readFormula_voucherTypeName]
      rfl
    | some n =>
      -- the formulas are found by their names, which differ
      have hne : "VchTypeFilter" ≠ "AlterIdFilter" := by decide
      simp only [Option.map_some, Option.toList_some, List.cons_append, List.nil_append,
        List.mapM_cons, List.mapM_nil, readFilter_formula, readFilter_other hne,
        readFormula_voucherTypeName, readFormula_alterIdAbove]
      rfl

end filters

/-- The static variables that are set are found. -/
theorem find_staticVariables (spec : EntitySpec) (dateFrom dateTo : Option CalendarDate)
    (company : Option String) :
    let staticVars := staticVariables spec dateFrom dateTo company
    staticVars.find "SVEXPORTFORMAT" = some (leaf "SVEXPORTFORMAT" "$$SysName:XML") ∧
      staticVars.find "SVCURRENTCOMPANY" =
        (nonEmpty company).map (leaf "SVCURRENTCOMPANY") ∧
      staticVars.find "SVFROMDATE" = ((if spec.isVoucher then dateFrom else none).map
        CalendarDate.text).map (leaf "SVFROMDATE") ∧
      staticVars.find "SVTODATE" = ((if spec.isVoucher then dateTo else none).map
        CalendarDate.text).map (leaf "SVTODATE") := by
  intro staticVars
  simp only [staticVars, staticVariables]
  generalize nonEmpty company = company
  cases spec.isVoucher with
  | false => cases company <;> exact ⟨rfl, rfl, rfl, rfl⟩
  | true => cases company <;> cases dateFrom <;> cases dateTo <;> exact ⟨rfl, rfl, rfl, rfl⟩

theorem readOptional_days {staticVars : Element} {tag : String} {isVoucher : Bool}
    {date : Option CalendarDate} (hyear : ∀ value ∈ date, 1000 ≤ value.year)
    (hfind : staticVars.find tag = ((if isVoucher then date else none).map
      CalendarDate.text).map (leaf tag)) :
    readOptional readDay staticVars tag =
      some (if isVoucher then date.map CalendarDate.ordinal else none) := by
  refine readOptional_leaf hfind ?_
  cases isVoucher with
  | false => rfl
  | true =>
    cases date with
    | none => rfl
    | some value => simp [readDay_text (hyear value rfl)]

theorem bind_of_some {α β : Type} {x : Option α} {a : α} {f : α → Option β} (h : x = some a) :
    (x >>= f) = f a := by
  rw [h]
  rfl

/-- What is read from the parts of a request. -/
theorem readCollectionRequest_eq {root header desc staticVars message collection : Element}
    {request : CollectionRequest} {filterNames : List String}
    (hheader : root.find "HEADER" = some header)
    (hdesc : (root.find "BODY").bind (·.find "DESC") = some desc)
    (hstaticVars : desc.find "STATICVARIABLES" = some staticVars)
    (hmessage : (desc.find "TDL").bind (·.find "TDLMESSAGE") = some message)
    (hcollection : message.find "COLLECTION" = some collection)
    (hid : (header.find "ID").bind Element.text = some (request.entityName ++ " Collection"))
    (hcompany : readOptional some staticVars "SVCURRENTCOMPANY" = some request.currentCompany)
    (hfrom : readOptional readDay staticVars "SVFROMDATE" = some request.fromDate)
    (hto : readOptional readDay staticVars "SVTODATE" = some request.toDate)
    (htype : (collection.find "TYPE").bind Element.text = some request.objectType)
    (hnames : (collection.findall "FILTER").mapM Element.text = some filterNames)
    (hfilters : filterNames.mapM (readFilter message) = some request.filters)
    (hfetch : (collection.findall "FETCH").mapM Element.text = some request.fetch)
    (hexport : isExport header staticVars = true)
    (hname : collection.get "NAME" = some (request.entityName ++ " Collection")) :
    readCollectionRequest root = some request := by
  rw [readCollectionRequest, bind_of_some hheader, bind_of_some hdesc, bind_of_some hstaticVars,
    bind_of_some hmessage, bind_of_some hcollection, bind_of_some hid,
    bind_of_some (textBefore_append _ _), bind_of_some hcompany, bind_of_some hfrom,
    bind_of_some hto, bind_of_some htype, bind_of_some hnames, bind_of_some hfilters,
    bind_of_some hfetch, hexport, hname, BEq.rfl]
  rfl

/-- The XML of a request says what was asked for, for days from the year 1000
on. -/
theorem read_collectionRequestTree (spec : EntitySpec) (sinceAlterId : Option Int)
    {dateFrom dateTo : Option CalendarDate} (company : Option String)
    (hfrom : ∀ value ∈ dateFrom, 1000 ≤ value.year) (hto : ∀ value ∈ dateTo, 1000 ≤ value.year) :
    readCollectionRequest (collectionRequestTree spec sinceAlterId dateFrom dateTo company) =
      some (buildCollectionRequest spec sinceAlterId (dateFrom.map CalendarDate.ordinal)
        (dateTo.map CalendarDate.ordinal) company) := by
  obtain ⟨hformat, hcompany, hfromDate, htoDate⟩ :=
    find_staticVariables spec dateFrom dateTo company
  have hcurrent : readOptional some (staticVariables spec dateFrom dateTo company)
      "SVCURRENTCOMPANY" = some (nonEmpty company) := readOptional_leaf hcompany rfl
  have hfrom' := readOptional_days hfrom hfromDate
  have hto' := readOptional_days hto htoDate
  -- `FILTER` and `FETCH` lines are found in order, whichever of them there are
  have hcollection : ∀ (attrs : List (String × String)) (names fetch : List String),
      (Element.mk "COLLECTION" attrs none (leaf "TYPE" spec.tallyObjectType ::
        names.map (leaf "FILTER") ++ fetch.map (leaf "FETCH"))).findall "FILTER" =
          names.map (leaf "FILTER") ∧
      (Element.mk "COLLECTION" attrs none (leaf "TYPE" spec.tallyObjectType ::
        names.map (leaf "FILTER") ++ fetch.map (leaf "FETCH"))).findall "FETCH" =
          fetch.map (leaf "FETCH") := by
    intro attrs names fetch
    have htype : ∀ tag, "TYPE" ≠ tag →
        (Element.mk "COLLECTION" attrs none (leaf "TYPE" spec.tallyObjectType ::
          names.map (leaf "FILTER") ++ fetch.map (leaf "FETCH"))).findall tag =
        (names.map (leaf "FILTER")).filter (·.tag == tag) ++
          (fetch.map (leaf "FETCH")).filter (·.tag == tag) := by
      intro tag hne
      rw [Element.findall, ← List.filter_append]
      exact List.filter_cons_of_neg (by simpa [leaf, Element.tag] using hne)
    rw [htype _ (by decide), htype _ (by decide), filter_leaf_self, filter_leaf_self,
      filter_leaf_ne (by decide), filter_leaf_ne (by decide)]
    exact ⟨List.append_nil _, rfl⟩
  have hfilters : (buildCollectionRequest spec sinceAlterId (dateFrom.map CalendarDate.ordinal)
      (dateTo.map CalendarDate.ordinal) company).filters =
        ((if spec.isVoucher then nonEmpty spec.voucherTypeFilter else none).map
          Formula.voucherTypeName).toList ++ (sinceAlterId.map Formula.alterIdAbove).toList := by
    unfold buildCollectionRequest
    split <;> rfl
  refine readCollectionRequest_eq rfl rfl rfl rfl rfl rfl hcurrent hfrom' hto' rfl
    (by rw [(hcollection _ _ _).1, mapM_text_leaf]) ?_
    (by rw [(hcollection _ _ _).2, mapM_text_leaf]; rfl)
    (by rw [isExport, hformat]; rfl) rfl
  rw [hfilters]
  exact readFilters _ _

/-- The receipts of January above a checkpoint. -/
theorem read_collectionRequestTree_receipts :
    let receipts := Receipt.spec
    let first : CalendarDate := ⟨2024, 1, 1, by decide, by decide, by decide⟩
    let last : CalendarDate := ⟨2024, 1, 31, by decide, by decide, by decide⟩
    readCollectionRequest (collectionRequestTree receipts (some 500) (some first) (some last) none) =
      some (buildCollectionRequest receipts (some 500) (some 738886) (some 738916) none) := by
  intro receipts first last
  have hfirst : first.ordinal = 738886 := by decide
  have hlast : last.ordinal = 738916 := by decide
  rw [← hfirst, ← hlast]
  refine read_collectionRequestTree receipts (some 500) none ?_ ?_
  · rintro _ ⟨⟩
    decide
  · rintro _ ⟨⟩
    decide

end TallyConnector
