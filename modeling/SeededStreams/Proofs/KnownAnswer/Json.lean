-- Known answers as texts. The name and the request are read back as they were;
-- the draws are those that are read from the texts of the expected ones.
import SeededStreams.KnownAnswer.Json
import SeededStreams.Proofs.Stream.Json

namespace SeededStreams.KnownAnswer

theorem reads_write (room : Nat) {k : KnownAnswer} (hcount : k.request.count < UInt64.size)
    (hskip : k.request.skip < UInt64.size) {draws : List Draw}
    (hdraws : List.Forall₂ (Json.Reads (Draw.read (room + 2))) (k.expected.map Draw.write) draws) :
    Json.Reads (read (room + 4)) k.write { k with expected := draws } := by
  have hname := (Json.reads_string (room + 3) k.name.toList).map
    (fun name => ({ name := some name } : Draft))
  have hrequest := (Request.reads_write room hcount hskip).map
    (fun request => ({ name := some k.name.toList, request := some request } : Draft))
  have hexpected := (Json.reads_listOf hdraws).map
    (fun expected =>
      ({ name := some k.name.toList, request := some k.request, expected := some expected } : Draft))
  have hmembers : Json.Gathers (shape.member (room + 3)) shape.start
      [("name", Json.Quoted.write k.name.toList), ("stream", k.request.write),
        ("expected", Draw.writeAll k.expected)]
      { name := some k.name.toList, request := some k.request, expected := some draws } :=
    .cons (Json.Shape.member_fills rfl rfl hname)
      (.cons (Json.Shape.member_fills rfl rfl hrequest)
        (.cons (Json.Shape.member_fills rfl rfl hexpected) (.nil _)))
  have hfinish : shape.finish
      { name := some k.name.toList, request := some k.request, expected := some draws } =
      .ok { k with expected := draws } := by
    have hname : String.ofList k.name.toList = k.name := String.ofList_toList
    change Except.ok _ = _
    simp only [hname]
  exact Json.Shape.reads_object hmembers hfinish

end SeededStreams.KnownAnswer
