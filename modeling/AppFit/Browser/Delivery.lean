import AppFit.Browser.Response

/- From the samples of the four runs to the curves on the page, for runs that fit
   into the snapshot buffer, as the shipped configuration has them. -/
set_option autoImplicit false

namespace AppFit.Browser

open AppFit.Shell AppFit.JsonText AppFit.Dict AppFit.Agent AppFit.Server

structure SampledRun where
  samples : List Snapshot
  cpuCores : Nat

def SampledRun.meanCpu (sampled : SampledRun) : ℚ := cpuMean sampled.samples

def SampledRun.data (sampled : SampledRun) : JsonData :=
  { cpuData := series sampled.samples Snapshot.cpu
    meanCpu := cpuMean sampled.samples
    cpuCores := sampled.cpuCores
    memoryData := series sampled.samples Snapshot.memory
    meanMemory := intMean sampled.samples Snapshot.memory
    udpPacketsSent := series sampled.samples Snapshot.udpPacketsSent
    udpPacketsRcvd := series sampled.samples Snapshot.udpPacketsRcvd
    tcpPacketsSent := series sampled.samples Snapshot.tcpPacketsSent
    tcpPacketsRcvd := series sampled.samples Snapshot.tcpPacketsRcvd }

end AppFit.Browser
