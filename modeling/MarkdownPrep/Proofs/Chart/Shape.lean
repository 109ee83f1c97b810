import MarkdownPrep.Chart.Decode
import MarkdownPrep.Proofs.Json.Shape

/-!
# The shape of a chart description

The fields of a chart description and its parts, with the shapes that they must have where they are
given (`Description.fields`). All but the data may be null. A document is read as a description if
and only if it has this shape (`isSome_read?_iff_isDescription`).
-/

namespace MarkdownPrep.Chart

open Json Decoder

/-- The fields of a series. -/
def Series.fields : List (Text × Shape) := [
  ("key".toList, .optional .text),
  ("name".toList, .optional .text),
  ("type".toList, .optional (.named Mark.names)),
  ("color".toList, .optional .text),
  ("yAxisId".toList, .optional (.named Side.names)),
  ("stackId".toList, .optional .text),
  ("strokeWidth".toList, .optional .float),
  ("dot".toList, .optional .bool),
  ("opacity".toList, .optional .float)]

/-- The fields of a reference line. -/
def ReferenceLine.fields : List (Text × Shape) := [
  ("x".toList, .optional IsValue),
  ("y".toList, .optional IsValue),
  ("label".toList, .optional .text),
  ("color".toList, .optional .text),
  ("strokeDasharray".toList, .optional .text),
  ("position".toList, .optional (.named LabelPlace.names))]

/-- The fields of a number style. -/
def NumberStyle.fields : List (Text × Shape) := [
  ("format".toList, .optional (.named NumberFormat.names)),
  ("currency".toList, .optional .text),
  ("decimals".toList, .optional .nat32),
  ("minimumFractionDigits".toList, .optional .nat32),
  ("maximumFractionDigits".toList, .optional .nat32),
  ("prefix".toList, .optional .text),
  ("suffix".toList, .optional .text)]

/-- The fields of a chart description. -/
def Description.fields : List (Text × Shape) := [
  ("type".toList, .optional (.named Kind.names)),
  ("data".toList, .list .record),
  ("title".toList, .optional .text),
  ("description".toList, .optional .text),
  ("xKey".toList, .optional .text),
  ("dataKeys".toList, .optional (.list .text)),
  ("colors".toList, .optional (.list .text)),
  ("labels".toList, .optional (.list .text)),
  ("series".toList, .optional (.list (.fields Series.fields))),
  ("referenceLines".toList, .optional (.list (.fields ReferenceLine.fields))),
  ("formatter".toList, .optional (.fields NumberStyle.fields)),
  ("stacked".toList, .optional .bool),
  ("showLegend".toList, .optional .bool),
  ("showGrid".toList, .optional .bool),
  ("xAxisLabel".toList, .optional .text),
  ("yAxisLabel".toList, .optional .text),
  ("yAxisRightLabel".toList, .optional .text),
  ("width".toList, .optional .float),
  ("height".toList, .optional .float)]

theorem Series.accepts_decode : decode.Accepts (.fields fields) := by
  have hnames : fieldNames = fields.map Prod.fst := rfl
  unfold decode
  rw [hnames]
  refine Fields.accepts_decode (by decide) ?_
  exact Fields.reads_get? accepts_text fun _ =>
    Fields.reads_get? accepts_text fun _ => Fields.reads_get? (accepts_named _) fun _ =>
    Fields.reads_get? accepts_text fun _ => Fields.reads_get? (accepts_named _) fun _ =>
    Fields.reads_get? accepts_text fun _ => Fields.reads_get? accepts_float fun _ =>
    Fields.reads_get? accepts_bool fun _ => Fields.reads_get? accepts_float fun _ =>
    Fields.reads_some _

theorem ReferenceLine.accepts_decode : decode.Accepts (.fields fields) := by
  have hnames : fieldNames = fields.map Prod.fst := rfl
  unfold decode
  rw [hnames]
  refine Fields.accepts_decode (by decide) ?_
  exact Fields.reads_get? accepts_anyValue fun _ =>
    Fields.reads_get? accepts_anyValue fun _ => Fields.reads_get? accepts_text fun _ =>
    Fields.reads_get? accepts_text fun _ => Fields.reads_get? accepts_text fun _ =>
    Fields.reads_get? (accepts_named _) fun _ => Fields.reads_some _

theorem NumberStyle.accepts_decode : decode.Accepts (.fields fields) := by
  have hnames : fieldNames = fields.map Prod.fst := rfl
  unfold decode
  rw [hnames]
  refine Fields.accepts_decode (by decide) ?_
  exact Fields.reads_get? (accepts_named _) fun _ =>
    Fields.reads_get? accepts_text fun _ => Fields.reads_get? accepts_nat32 fun _ =>
    Fields.reads_get? accepts_nat32 fun _ => Fields.reads_get? accepts_nat32 fun _ =>
    Fields.reads_get? accepts_text fun _ => Fields.reads_get? accepts_text fun _ =>
    Fields.reads_some _

theorem Description.accepts_decode : decode.Accepts (.fields fields) := by
  have hnames : fieldNames = fields.map Prod.fst := rfl
  have htexts : (list text).Accepts (.list .text) := accepts_list accepts_text
  unfold decode
  rw [hnames]
  refine Fields.accepts_decode (by decide) ?_
  exact Fields.reads_get? (accepts_named _) fun _ =>
    Fields.reads_get (accepts_list accepts_record) fun _ =>
    Fields.reads_get? accepts_text fun _ => Fields.reads_get? accepts_text fun _ =>
    Fields.reads_get? accepts_text fun _ => Fields.reads_get? htexts fun _ =>
    Fields.reads_get? htexts fun _ => Fields.reads_get? htexts fun _ =>
    Fields.reads_get? (accepts_list Series.accepts_decode) fun _ =>
    Fields.reads_get? (accepts_list ReferenceLine.accepts_decode) fun _ =>
    Fields.reads_get? NumberStyle.accepts_decode fun _ =>
    Fields.reads_get? accepts_bool fun _ => Fields.reads_get? accepts_bool fun _ =>
    Fields.reads_get? accepts_bool fun _ => Fields.reads_get? accepts_text fun _ =>
    Fields.reads_get? accepts_text fun _ => Fields.reads_get? accepts_text fun _ =>
    Fields.reads_get? accepts_float fun _ => Fields.reads_get? accepts_float fun _ =>
    Fields.reads_some _

/-- A text is a JSON document of the shape of a chart description. -/
def IsDescription (text : Text) : Prop :=
  ∃ t, Tree.read? text = some t ∧ Shape.fields Description.fields maxDepth t

theorem isSome_read?_iff_isDescription (text : Text) :
    (Json.read? Description.decode text).isSome ↔ IsDescription text := by
  rw [Json.read?, IsDescription]
  cases Tree.read? text with
  | none => simp
  | some t => simpa using Description.accepts_decode maxDepth t

end MarkdownPrep.Chart
