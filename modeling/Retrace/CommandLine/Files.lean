import Retrace.CommandLine.Command

/-!
# Files of a request

A request names the files that it reads and writes.  A request to reproduce a model also reads the
data files that the record of the model names, so these are known only when the model file is there.
-/

namespace Retrace
namespace CommandLine

/-- The paths that a request names. -/
def Request.namedPaths : Request → List OsPath
  | .version => []
  | .train request => [request.data, request.output]
  | .evaluate request => [request.model, request.data]
  | .describe model _ => [model]
  | .reproduce request =>
      request.model :: (request.dataPath.map fun path => .ofText path.lossy).toList ++
        request.output.toList
  | .difference left right => [left, right]

/-- The paths of the data files in a record of a model. -/
def recordedPathsOf (record : ModelRecord) : List OsPath :=
  match record.record.extract with
  | .error _ => []
  | .ok configs => configs.filterMap fun c => (c.text "path").toOption.map .ofText

/-- The paths that a request reads because a model file with these files names them. -/
def Request.recordedPaths (directory : Directory) : Request → List OsPath
  | .reproduce request =>
      match ModelFile.load directory request.model with
      | .error _ => []
      | .ok file => recordedPathsOf file.model.record
  | _ => []

end CommandLine
end Retrace
