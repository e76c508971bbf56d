/-!
What a collection needs to know: the cluster, the program that manages its containers, the
directory to copy from every node, and the file on a node that tells its version.
-/

namespace NodeLogs

structure Config where
  cluster : String
  provider : String
  remoteLogDir : String
  versionFile : String
deriving Repr, DecidableEq

namespace Config

def standard : Config := ⟨"kind", "docker", "/var/log", "/kind/version"⟩

/-- The fields by their names, in the order in which they are written. -/
def fields (c : Config) : List (String × String) :=
  [("cluster", c.cluster), ("provider", c.provider), ("remote_log_dir", c.remoteLogDir),
    ("version_file", c.versionFile)]

def fieldNames : List String := standard.fields.map (·.1)

/-- Puts a value into the field of this name; other names change nothing. -/
def set (c : Config) (name value : String) : Config :=
  match name with
  | "cluster" => { c with cluster := value }
  | "provider" => { c with provider := value }
  | "remote_log_dir" => { c with remoteLogDir := value }
  | "version_file" => { c with versionFile := value }
  | _ => c

end Config

end NodeLogs
