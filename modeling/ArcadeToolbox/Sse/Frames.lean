import ArcadeToolbox.Lib.Decimal

/-!
# The frames of an event stream

The reader folds the lines of an event into a frame and dispatches it at the blank line. The data
lines are joined as they come, and whether a separator is due is read off the text so far: it is due
if that is not empty. So the empty data lines at the beginning are lost.
-/

namespace ArcadeToolbox.Sse

/-- A frame as it builds up. -/
structure Frame where
  id : String
  event : String
  data : String
  retryMS : ℤ
  deriving DecidableEq, Repr

def Frame.empty : Frame := ⟨"", "", "", 0⟩

/-- The field name and the value of a line, without the optional blank after the colon. -/
def splitField (line : String) : String × String :=
  match line.toList.span (· ≠ ':') with
  | (_, []) => (line, "")
  | (field, _ :: ' ' :: value) => (.ofList field, .ofList value)
  | (field, _ :: value) => (.ofList field, .ofList value)

def isComment (line : String) : Bool := line.toList.head? = some ':'

def appendData (data value : String) : String := (if data ≠ "" then data ++ "\n" else data) ++ value

/-- Take one line into the frame. -/
def accumulate (line : String) (frame : Frame) : Frame :=
  let (field, value) := splitField line
  if field = "id" then { frame with id := value }
  else if field = "event" then { frame with event := value }
  else if field = "data" then { frame with data := appendData frame.data value }
  else if field = "retry" then
    match Txn.parseInt value with
    | some ms => if 0 ≤ ms then { frame with retryMS := ms } else frame
    | none => frame
  else frame

/-- The loop of `runOnce` over the lines of a connection: the frames that are dispatched. -/
def dispatch : Frame → List String → List Frame
  | _, [] => []
  | frame, line :: lines =>
    if line = "" then frame :: dispatch .empty lines
    else if isComment line then dispatch frame lines
    else dispatch (accumulate line frame) lines

def dataValue (line : String) : Option String :=
  if isComment line = false ∧ (splitField line).1 = "data" then some (splitField line).2 else none

def dataValues (lines : List String) : List String := lines.filterMap dataValue

theorem accumulate_data (line : String) (frame : Frame) : (accumulate line frame).data
    = if (splitField line).1 = "data" then appendData frame.data (splitField line).2
      else frame.data := by
  unfold accumulate
  dsimp only
  split_ifs with hid hevent hdata hretry <;> simp_all
  split
  · split_ifs <;> rfl
  · rfl

/-- The lines of one event end in one frame. -/
theorem dispatch_event {lines : List String} (h : "" ∉ lines) (frame : Frame) :
    ∃ f, dispatch frame (lines ++ [""]) = [f] ∧ f.data = (dataValues lines).foldl appendData
      frame.data := by
  induction lines generalizing frame with
  | nil => exact ⟨frame, rfl, rfl⟩
  | cons line lines ih =>
    rw [List.mem_cons, not_or] at h
    rw [List.cons_append, dispatch, if_neg (Ne.symm h.1)]
    rcases hc : isComment line with _ | _
    · obtain ⟨f, hf, hdata⟩ := ih h.2 (accumulate line frame)
      refine ⟨f, by simpa using hf, ?_⟩
      rw [hdata, accumulate_data]
      by_cases hfield : (splitField line).1 = "data" <;> simp [dataValues, dataValue, hc, hfield]
    · obtain ⟨f, hf, hdata⟩ := ih h.2 frame
      exact ⟨f, by simpa using hf, by simpa [dataValues, dataValue, hc] using hdata⟩

theorem foldl_appendData {data : String} (h : data ≠ "") (vs : List String) :
    vs.foldl appendData data = "\n".intercalate (data :: vs) := by
  induction vs generalizing data with
  | nil => simp
  | cons v vs ih =>
    have hne : data ++ "\n" ++ v ≠ "" := by simp [String.append_eq_empty_iff]
    rw [List.foldl_cons, appendData, if_pos h, ih hne, String.intercalate_cons_append,
        String.intercalate_cons_cons]

/-- What the text so far cannot tell: the empty values before the first that is not. -/
theorem foldl_appendData_empty (vs : List String) :
    vs.foldl appendData "" = "\n".intercalate (vs.dropWhile (· = "")) := by
  induction vs with
  | nil => rfl
  | cons v vs ih =>
    by_cases h : v = ""
    · simpa [h, appendData] using ih
    · simpa [h, appendData] using foldl_appendData h vs

theorem length_intercalate_dropWhile (vs : List String) :
    ("\n".intercalate (vs.dropWhile (· = ""))).length ≤ ("\n".intercalate vs).length := by
  induction vs with
  | nil => simp
  | cons v vs ih =>
    by_cases h : v = ""
    · cases vs with
      | nil => simp [h]
      | cons w vs =>
        simp only [h, String.intercalate_cons_cons, String.length_append,
            List.dropWhile_cons_of_pos, decide_true]
        omega
    · simp [h]

/-- The lines of an event, comments and other fields among them, are dispatched as one frame. Its
data is that of its data lines, joined by newlines, exactly if it has at most one or the first of
them is not empty. -/
theorem dispatch_data_iff (lines : List String) (h : "" ∉ lines) :
    ∃ f, dispatch .empty (lines ++ [""]) = [f]
    ∧ (f.data = "\n".intercalate (dataValues lines)
      ↔ (dataValues lines).length ≤ 1 ∨ (dataValues lines).head? ≠ some "") := by
  obtain ⟨f, hf, hdata⟩ := dispatch_event h .empty
  refine ⟨f, hf, ?_⟩
  rw [hdata, Frame.empty, foldl_appendData_empty]
  rcases dataValues lines with _ | ⟨v, _ | ⟨w, vs⟩⟩
  · simp
  · by_cases hv : v = "" <;> simp [hv]
  · by_cases hv : v = ""
    · have hle := length_intercalate_dropWhile (w :: vs)
      refine iff_of_false (fun he => ?_) (by simp [hv])
      have hlen := congrArg String.length he
      simp only [hv, List.dropWhile_cons_of_pos, decide_true, String.intercalate_cons_cons,
          String.length_append] at hlen
      have hnl : "\n".length = 1 := rfl
      omega
    · simp [hv]

theorem dispatch_data_iff_comment :
    "" ∉ ["id: 7", "data: a", ":", "data:"] ∧ ∃ f, dispatch .empty
      (["id: 7", "data: a", ":", "data:"] ++ [""]) = [f]
      ∧ f.data = "a\n" := by
  refine ⟨by decide, ?_⟩
  obtain ⟨f, hf, hiff⟩ := dispatch_data_iff ["id: 7", "data: a", ":", "data:"] (by decide)
  exact ⟨f, hf, hiff.mpr (.inr (by decide))⟩

/-- The first of two data lines is empty. -/
theorem dispatch_drops_empty_line : (dispatch .empty ["data:", "data: a", ""]).map (·.data) = ["a"]
    ∧ "\n".intercalate (dataValues ["data:", "data: a"]) = "\na" := by
  decide

end ArcadeToolbox.Sse
