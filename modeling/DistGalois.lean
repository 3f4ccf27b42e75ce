import DistGalois.Machine
import DistGalois.BcPull.Graph
import DistGalois.BcPull.NodeData
import DistGalois.BcPull.SSSP
import DistGalois.BcPull.PredAndSucc
import DistGalois.BcPull.NumShortestPaths
import DistGalois.BcPull.ShortestPathCounts
import DistGalois.BcPull.DependencyPropogation
import DistGalois.BcPull.Driver
import DistGalois.BcPull.Assertions
import DistGalois.BcPull.Sources
import DistGalois.BcPull.Centrality
import DistGalois.BcPull.Sync
import DistGalois.BcPull.Hosts
import DistGalois.BcPull.Replicas
import DistGalois.BcPull.Simulation
import DistGalois.BcPull.HostAssertions
import DistGalois.BcPull.HostCentrality
import DistGalois.Runtime.StatManager
