import NimbusCore.Identity.Replicas
import NimbusCore.Dashboard.Edit
import NimbusCore.Controller.Idempotence
import NimbusCore.Controller.Ordinals
import NimbusCore.Controller.Overcommit
import NimbusCore.Controller.Replicas
import NimbusCore.Controller.Deletion
import NimbusCore.Controller.Ownership
import NimbusCore.Controller.NodeHealth
import NimbusCore.Apiserver.StatusReports
import NimbusCore.Apiserver.NodePorts
import NimbusCore.Apiserver.Reapply
import NimbusCore.Apiserver.RoleBounds
import NimbusCore.Apiserver.NodeIdentity
import NimbusCore.Apiserver.Backups
import NimbusCore.Apiserver.Federation
import NimbusCore.Agent.Desired
import NimbusCore.Agent.ContainerNames
import NimbusCore.Agent.VerifiedImages
import NimbusCore.Agent.PathGuards
import NimbusCore.Agent.Debounce
import NimbusCore.Agent.NodePortProxies
import NimbusCore.Csi.Listing
import NimbusCore.Mesh.Accounting
import NimbusCore.Netpolicy.Engine
import NimbusCore.Apiserver.Provisioning
import NimbusCore.Gitops.Status
import NimbusCore.Cluster.VolumePlacement
import NimbusCore.Cluster.QuotaChecks
import NimbusCore.Cluster.Billing
