import Testbed.Shape

/-!
# Sandboxes and environments

A sandbox says how services are run on a platform, an environment what a platform offers to an
instance. The platforms refine each other: what is local has all that is common, a container all
that is local, and `docker` and `kubernetes` all that a container has. A member of either family
embeds the member that it refines.
-/

namespace Testbed.Rig

/-- A command run around an event in a sandbox's life. -/
def hook : Fields := declare "SandboxHook" [
  ("command", "command", .text),
  ("args", "args", .list .text),
  ("shell", "shell,default=/bin/sh", .text)]

/-- An image of a container. -/
def image : Fields := declare "ContainerImage" [
  ("name", "name", .text),
  ("tag", "tag,default=latest", .text)]

/-- How to sign in to a registry. -/
def registryAuth : Fields := declare "ContainerRegistryAuth" [
  ("username", "username", .text),
  ("password", "password", .text)]

/-- Where images come from. -/
def registry : Fields := declare "ContainerRegistry" [
  ("auth", "auth", .record registryAuth)]

/-- How to sign in to a cluster. -/
def clusterAuth : Fields := declare "KubernetesAuth" [
  ("kubeconfig", "kubeconfig,path", .text)]

/-- The host ports handed out to published services. -/
def ports : Fields := declare "EnvironmentPorts" [
  ("start", "start,default=30000", .int .u16),
  ("end", "end,default=31000", .int .u16)]

/-- The platform that a platform refines. -/
def refines? : Platform → Option Platform
  | .common => none
  | .host => some .common
  | .container => some .host
  | .docker => some .container
  | .kubernetes => some .container

/-- The fields that a sandbox declares itself. -/
def sandboxOwn : Platform → Fields
  | .common => declare "CommonSandbox" [
      ("available", "available,default=true", .bool),
      ("dirs", "dirs,keys=conf|run|script", .map .text),
      ("hooks", "hooks,string=command", .map (.record hook))]
  | .host => []
  | .container => declare "ContainerSandbox" [
      ("image", "image", .record image),
      ("registry", "registry", .record registry)]
  | .docker => declare "DockerSandbox" [
      ("network_name", "network_name", .text)]
  | .kubernetes => declare "KubernetesSandbox" [
      ("auth", "auth", .record clusterAuth),
      ("namespace", "namespace,default=default", .text)]

/-- The fields that an environment declares itself. -/
def environmentOwn : Platform → Fields
  | .common => declare "CommonEnvironment" [
      ("ports", "ports", .record ports)]
  | .host => []
  | .container => declare "ContainerEnvironment" [
      ("registry", "registry", .record registry)]
  | .docker => declare "DockerEnvironment" [
      ("name_prefix", "name_prefix,default=test", .text)]
  | .kubernetes => declare "KubernetesEnvironment" [
      ("namespace", "namespace,default=default", .text),
      ("kubeconfig", "kubeconfig,path", .text)]

/-- The members of a family embed each other as the platforms refine each other. -/
def lineage (own : Platform → Fields) (p : Platform) : Lineage Shape :=
  let common := .root (own .common)
  let host := .refine (own .host) common
  let container := .refine (own .container) host
  match p with
  | .common => common
  | .host => host
  | .container => container
  | .docker => .refine (own .docker) container
  | .kubernetes => .refine (own .kubernetes) container

/-- A member embeds the member for the platform that its own refines. -/
theorem lineage_of_refines {own : Platform → Fields} {p q : Platform}
    (h : refines? p = some q) : lineage own p = .refine (own p) (lineage own q) := by
  cases p with
  | common => cases h
  | _ => obtain rfl := Option.some.inj h; rfl

/-- All fields of a sandbox. -/
def sandbox (p : Platform) : Fields :=
  (lineage sandboxOwn p).flat

/-- All fields of an environment. -/
def environment (p : Platform) : Fields :=
  (lineage environmentOwn p).flat

end Testbed.Rig
